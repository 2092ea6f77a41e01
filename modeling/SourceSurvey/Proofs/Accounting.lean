import SourceSurvey.CommandLine.Run
import SourceSurvey.Proofs.Order
import Mathlib.Algebra.GroupWithZero.Nat
import Mathlib.Data.List.Perm.Basic

/-! The books of a survey. Every descriptor that is found gives a project or a diagnostic and never
both, every source that is listed is filed under one scope, and the diagnostics of all stages come
together in the report, so the numbers of a report tell how many descriptors and sources there were.
-/

namespace SourceSurvey.Scan

open Text Source

/-! ### Descriptors -/

/-- The project of a descriptor, if it gives one. -/
def projectAt? (disk : Disk) (d : FoundDescriptor) : Option Project :=
  match readProject disk d.ecosystem d.path with
  | .ok project => some project
  | .error _ => none

/-- The diagnostic of a descriptor that gives no project. -/
def failureAt? (disk : Disk) (d : FoundDescriptor) : Option Diagnostic :=
  match readProject disk d.ecosystem d.path with
  | .ok _ => none
  | .error e => some (.ofDescriptor e)

theorem readProjects_eq (disk : Disk) (found : List FoundDescriptor) :
    readProjects disk found = (found.filterMap (projectAt? disk),
      found.filterMap (failureAt? disk)) := by
  simp only [readProjects, List.filterMap_map]
  rfl

theorem isSome_failureAt? (disk : Disk) (d : FoundDescriptor) :
    (failureAt? disk d).isSome = !(projectAt? disk d).isSome := by
  rw [failureAt?, projectAt?]
  cases readProject disk d.ecosystem d.path <;> rfl

/-- What is said about a descriptor that cannot be read names that descriptor. -/
theorem path_of_readProject {disk : Disk} {ecosystem : Ecosystem} {path : Text}
    {e : DescriptorError} (h : readProject disk ecosystem path = .error e) : e.path = path := by
  rw [readProject] at h
  split at h
  · rw [Project.parse] at h
    split at h
    · rw [← Except.error.inj h]
      rfl
    · cases ecosystem <;> exact absurd h (by simp)
  · rw [← Except.error.inj h]
    rfl

/-- A project names its descriptor, and its directory is the one that holds it. -/
theorem names_of_parse {ecosystem : Ecosystem} {path t : Text} {p : Project}
    (h : Project.parse ecosystem path t = .ok p) :
    p.path = path ∧ p.ecosystem = ecosystem ∧ p.dir = (Path.parent? path).getD [] := by
  rw [Project.parse] at h
  split at h
  · exact absurd h (by simp)
  · cases ecosystem <;> exact Except.ok.inj h ▸ ⟨rfl, rfl, rfl⟩

theorem exists_parse_of_projectAt? {disk : Disk} {d : FoundDescriptor} {p : Project}
    (h : projectAt? disk d = some p) :
    ∃ t, Project.parse d.ecosystem d.path t = .ok p := by
  rw [projectAt?, readProject] at h
  cases hr : disk.read d.path with
  | error fault => exact absurd h (by simp [hr])
  | ok bytes =>
    refine ⟨decode bytes, ?_⟩
    cases hp : Project.parse d.ecosystem d.path (decode bytes) with
    | error e => exact absurd h (by simp [hr, hp])
    | ok project => exact congrArg Except.ok (by simpa [hr, hp] using h)

theorem projectAt?_names {disk : Disk} {d : FoundDescriptor} {p : Project}
    (h : projectAt? disk d = some p) :
    p.path = d.path ∧ p.ecosystem = d.ecosystem := by
  obtain ⟨t, parsed⟩ := exists_parse_of_projectAt? h
  obtain ⟨path, ecosystem, -⟩ := names_of_parse parsed
  exact ⟨path, ecosystem⟩

theorem failureAt?_names {disk : Disk} {d : FoundDescriptor} {g : Diagnostic}
    (h : failureAt? disk d = some g) :
    g.stage = .descriptor ∧ g.path = d.path := by
  rw [failureAt?] at h
  split at h
  · exact absurd h (by simp)
  · next e he =>
    rw [← Option.some.inj h]
    exact ⟨rfl, path_of_readProject he⟩

/-- Of two kinds of results each element gives one of one kind. -/
theorem length_filterMap_add {α β γ : Type} {f : α → Option β} {g : α → Option γ}
    (h : ∀ a, (g a).isSome = !(f a).isSome) (l : List α) :
    (l.filterMap f).length + (l.filterMap g).length = l.length := by
  induction l with
  | nil => rfl
  | cons a l ih =>
    have apart := h a
    cases hf : f a with
    | none =>
      rw [hf] at apart
      obtain ⟨c, hg⟩ := Option.isSome_iff_exists.mp apart
      rw [List.filterMap_cons_none hf, List.filterMap_cons_some hg, List.length_cons,
        List.length_cons]
      omega
    | some b =>
      rw [hf] at apart
      have hg : g a = none := by simpa using apart
      rw [List.filterMap_cons_some hf, List.filterMap_cons_none hg, List.length_cons,
        List.length_cons]
      omega

/-! ### Sources -/

/-- The files of some scopes in the order of the scopes. -/
def filesOf (scopes : List (Text × ScopeSummary)) : List Text :=
  scopes.flatMap fun entry => entry.2.files

theorem filesOf_addToScope (key : Text) (f : FileSummary) (scopes : List (Text × ScopeSummary)) :
    (filesOf (addToScope key f scopes)).Perm (filesOf scopes ++ [f.path]) := by
  induction scopes with
  | nil => exact .refl _
  | cons entry rest ih =>
    rw [addToScope]
    split
    · -- the file comes behind those of its scope, and the files of the later scopes move past it
      show ((entry.2.files ++ [f.path]) ++ filesOf rest).Perm
        ((entry.2.files ++ filesOf rest) ++ [f.path])
      rw [List.append_assoc, List.append_assoc]
      exact List.perm_append_comm.append_left entry.2.files
    · split
      · show ([f.path] ++ (entry.2.files ++ filesOf rest)).Perm
          ((entry.2.files ++ filesOf rest) ++ [f.path])
        exact List.perm_append_comm
      · show (entry.2.files ++ filesOf (addToScope key f rest)).Perm
          ((entry.2.files ++ filesOf rest) ++ [f.path])
        rw [List.append_assoc]
        exact ih.append_left entry.2.files

/-- Files are filed as they come, and counted. -/
theorem foldl_add (files : List FileSummary) (s : SourceSummary) :
    (filesOf (files.foldl SourceSummary.add s).scopes).Perm
      (filesOf s.scopes ++ files.map (·.path)) ∧
      (files.foldl SourceSummary.add s).fileCount = s.fileCount + files.length := by
  induction files generalizing s with
  | nil => exact ⟨by simp, rfl⟩
  | cons f files ih =>
    obtain ⟨filed, counted⟩ := ih (s.add f)
    rw [List.foldl_cons, List.map_cons, List.length_cons]
    constructor
    · have first : (filesOf (s.add f).scopes).Perm (filesOf s.scopes ++ [f.path]) :=
        filesOf_addToScope f.scopeKey f s.scopes
      refine filed.trans ?_
      simpa using first.append_right (files.map (·.path))
    · have one : (s.add f).fileCount = s.fileCount + 1 := rfl
      omega

theorem length_filesOf (scopes : List (Text × ScopeSummary)) :
    (filesOf scopes).length = (scopes.map fun entry => entry.2.files.length).sum :=
      List.length_flatMap

theorem path_readSummary (disk : Disk) (language : Language) (path : Text) :
    (readSummary disk language path).path = path := by
  rw [readSummary]
  split <;> rfl

/-- The diagnostic of a source that cannot be read. -/
def unreadAt? (disk : Disk) (path : Text) : Option Diagnostic :=
  match disk.read path with
  | .ok _ => none
  | .error fault => some (.unreadFile path fault.message)

theorem readDiagnostic?_readSummary (disk : Disk) (language : Language) (path : Text) :
    readDiagnostic? (readSummary disk language path) = unreadAt? disk path := by
  rw [readSummary, unreadAt?]
  cases disk.read path <;> rfl

/-! ### Projects -/

/-- The sources that are listed for a project. -/
def listingOf (disk : Disk) (excludes : List Glob) (project : Project) : Listing Text :=
  SourceFilter.sources disk ⟨project.dir, project.ecosystem, excludes⟩

/-- What goes wrong with the sources of a project: directories that cannot be walked, then files
that cannot be read. -/
def sourceFailures (disk : Disk) (excludes : List Glob) (project : Project) : List Diagnostic :=
  (listingOf disk excludes project).diagnostics ++ (listingOf disk excludes project).found.filterMap
    (unreadAt? disk)

section Project

variable (disk : Disk) (excludes : List Glob) (project : Project)

theorem snd_surveyProject :
    (surveyProject disk excludes project).2 = sourceFailures disk excludes project := by
  have unread :
      (summarizeSources disk project.ecosystem.language (listingOf disk excludes project).found).2 =
      (listingOf disk excludes project).found.filterMap (unreadAt? disk) := by
    simp only [summarizeSources, aggregate, List.filterMap_map, Function.comp_def,
      readDiagnostic?_readSummary]
  rw [sourceFailures, ← unread]
  rfl

/-- The files of a project are those that were listed for it. -/
theorem filesOf_surveyProject :
    (filesOf (surveyProject disk excludes project).1.sources.scopes).Perm
      (listingOf disk excludes project).found ∧
      (surveyProject disk excludes project).1.sources.fileCount =
        (listingOf disk excludes project).found.length := by
  obtain ⟨filed, counted⟩ := foldl_add
    ((listingOf disk excludes project).found.map (readSummary disk project.ecosystem.language))
      .empty
  have paths : (fun f : FileSummary => f.path) ∘ readSummary disk project.ecosystem.language = id :=
    funext (path_readSummary disk project.ecosystem.language)
  rw [List.map_map, paths, List.map_id] at filed
  rw [List.length_map] at counted
  exact ⟨filed, counted.trans (Nat.zero_add _)⟩

end Project

/-! ### Stages -/

theorem stage_of_mem_listFiles {disk : Disk} {enters : Text → Bool} {path : Text} {g : Diagnostic}
    (h : g ∈ (listFiles disk enters path).diagnostics) : g.stage = .discover := by
  obtain ⟨met, -, told⟩ := List.mem_filterMap.mp h
  cases met with
  | ok file => exact absurd told (by simp)
  | error fault => exact Option.some.inj told ▸ rfl

theorem stage_of_mem_discover {disk : Disk} {root : Text} {ecosystems : List Ecosystem}
    {g : Diagnostic} (h : g ∈ (discover disk root ecosystems).diagnostics) : g.stage = .discover :=
  stage_of_mem_listFiles h

/-- Walks and reads of sources leave no diagnostic of a descriptor. -/
theorem stage_of_mem_sourceFailures {disk : Disk} {excludes : List Glob} {project : Project}
    {g : Diagnostic} (h : g ∈ sourceFailures disk excludes project) : g.stage ≠ .descriptor := by
  rcases List.mem_append.mp h with h | h
  · obtain ⟨listing, hl, hg⟩ := List.mem_flatMap.mp h
    obtain ⟨root, -, rfl⟩ := List.mem_map.mp hl
    rw [stage_of_mem_listFiles hg]
    decide
  · obtain ⟨path, -, hg⟩ := List.mem_filterMap.mp h
    rw [unreadAt?] at hg
    split at hg
    · exact absurd hg (by simp)
    · rw [← Option.some.inj hg]
      show Stage.read ≠ .descriptor
      decide

/-! ### Reports -/

/-- What a report owes to the descriptors that were found and to the sources that were listed. -/
structure Report.Accounts (disk : Disk) (excludes : List Glob)
    (discovered : Listing FoundDescriptor) (r : Report) :
    Prop where
  /-- Descriptors that can be read give the projects, in their order. -/
  projects : r.projects.map (·.project) = discovered.found.filterMap (projectAt? disk)
  /-- Every other descriptor gives one diagnostic of its stage, under its path. -/
  failures :
    (r.diagnostics.filter fun g => g.stage = .descriptor).Perm
      (discovered.found.filterMap (failureAt? disk))
  apart : ∀ d ∈ discovered.found, (failureAt? disk d).isSome = !(projectAt? disk d).isSome
  named : ∀ d ∈ discovered.found,
    (∀ p ∈ projectAt? disk d, p.path = d.path ∧ p.ecosystem = d.ecosystem) ∧
    ∀ g ∈ failureAt? disk d, g.path = d.path
  descriptors : r.projects.length + (r.diagnostics.filter fun g => g.stage = .descriptor).length =
    discovered.found.length
  /-- The sources listed for a project are those filed under its scopes, and they are counted. -/
  files : ∀ p ∈ r.projects,
    (filesOf p.sources.scopes).Perm (listingOf disk excludes p.project).found ∧
    p.sources.fileCount = (listingOf disk excludes p.project).found.length ∧
    p.sources.fileCount = (p.sources.scopes.map fun entry => entry.2.files.length).sum
  /-- The projects are related by the canonical paths of the tree. -/
  relations : r.relations = Graph.relations (r.projects.map (·.project)) disk.canonical
  /-- Nothing that went wrong is lost or told twice. -/
  diagnostics :
    r.diagnostics.Perm (discovered.diagnostics ++ discovered.found.filterMap (failureAt? disk) ++
    (r.projects.map (·.project)).flatMap (sourceFailures disk excludes))
  sorted : r.diagnostics.Pairwise fun a b => Diagnostic.le a b = true

theorem filter_failures (disk : Disk) (found : List FoundDescriptor) :
    ((found.filterMap (failureAt? disk)).filter fun g => g.stage = .descriptor) = found.filterMap
      (failureAt? disk) := by
  refine List.filter_eq_self.mpr fun g hg => ?_
  obtain ⟨d, -, hd⟩ := List.mem_filterMap.mp hg
  exact decide_eq_true (failureAt?_names hd).1

theorem projects_surveyFrom (disk : Disk) (root : Text) (ecosystems : List Ecosystem)
    (excludes : List Glob) : (surveyFrom disk root ecosystems excludes).projects =
      ((discover disk root ecosystems).found.filterMap (projectAt? disk)).map
        fun p => (surveyProject disk excludes p).1 := by
  simp only [surveyFrom, readProjects_eq, List.map_map]
  rfl

theorem accounts_surveyFrom (disk : Disk) (root : Text) (ecosystems : List Ecosystem)
    (excludes : List Glob) :
    (surveyFrom disk root ecosystems excludes).Accounts disk excludes
      (discover disk root ecosystems) := by
  let discovered := discover disk root ecosystems
  let projects := discovered.found.filterMap (projectAt? disk)
  let r := surveyFrom disk root ecosystems excludes
  have surveyed : r.projects = projects.map fun p => (surveyProject disk excludes p).1 :=
    projects_surveyFrom disk root ecosystems excludes
  have named : r.projects.map (·.project) = projects := by
    rw [surveyed, List.map_map]
    exact List.map_id projects
  have told :
      r.diagnostics.Perm (discovered.diagnostics ++ discovered.found.filterMap (failureAt? disk) ++
      projects.flatMap (sourceFailures disk excludes)) := by
    simp only [r, surveyFrom, readProjects_eq, List.flatMap_map, snd_surveyProject]
    exact Diagnostic.sort_perm _
  have failures : (r.diagnostics.filter fun g => g.stage = .descriptor).Perm
      (discovered.found.filterMap (failureAt? disk)) := by
    have walks : (discovered.diagnostics.filter fun g => g.stage = .descriptor) = [] :=
      List.filter_eq_nil_iff.mpr fun g hg => by simp [stage_of_mem_discover hg]
    have sources :
        ((projects.flatMap (sourceFailures disk excludes)).filter fun g =>
          g.stage = .descriptor) = [] := by
      refine List.filter_eq_nil_iff.mpr fun g hg => ?_
      obtain ⟨p, -, hp⟩ := List.mem_flatMap.mp hg
      simpa using stage_of_mem_sourceFailures hp
    have kept := told.filter fun g => g.stage = .descriptor
    rwa [List.filter_append, List.filter_append, walks, sources, filter_failures, List.nil_append,
      List.append_nil] at kept
  constructor
  · exact named
  · exact failures
  · exact fun d _ => isSome_failureAt? disk d
  · exact fun d _ => ⟨fun p hp => projectAt?_names hp, fun g hg => (failureAt?_names hg).2⟩
  · rw [failures.length_eq, ← List.length_map (f := ProjectSummary.project), named]
    exact length_filterMap_add (isSome_failureAt? disk) discovered.found
  · intro p hp
    obtain ⟨project, -, rfl⟩ := List.mem_map.mp (surveyed ▸ hp)
    obtain ⟨filed, counted⟩ := filesOf_surveyProject disk excludes project
    exact ⟨filed, counted, by rw [counted, ← filed.length_eq, length_filesOf]⟩
  · rw [named]
    simp only [surveyFrom, readProjects_eq]
    rfl
  · rw [named]
    exact told
  · exact Diagnostic.pairwise_sort _

section Survey

variable {disk : Disk} {configuration : Configuration} {root : Text} {excludes : List Glob}
  {fault : ScanError} {pattern : Text} {reason : Glob.GlobError}

theorem survey_eq_ok (hr : resolveRoot disk configuration.root = .ok root)
    (hg : Glob.parseAll configuration.excludes = .ok excludes) :
    survey disk configuration = .ok (surveyFrom disk root configuration.ecosystems excludes) := by
  simp only [survey, hr, hg]
  rfl

theorem survey_eq_error (hr : resolveRoot disk configuration.root = .error fault) :
    survey disk configuration = .error fault := by
  simp only [survey, hr]
  rfl

theorem survey_eq_invalidGlob (hr : resolveRoot disk configuration.root = .ok root)
    (hg : Glob.parseAll configuration.excludes = .error (pattern, reason)) :
    survey disk configuration = .error (.invalidGlob pattern reason) := by
  simp only [survey, hr, hg]
  rfl

/-- A survey gives a report exactly for a usable root under valid globs. -/
theorem survey_eq_ok_iff {report : Report} : survey disk configuration = .ok report ↔
    ∃ root excludes, resolveRoot disk configuration.root = .ok root ∧
      Glob.parseAll configuration.excludes = .ok excludes ∧
        report = surveyFrom disk root configuration.ecosystems excludes := by
  constructor
  · intro surveyed
    cases hr : resolveRoot disk configuration.root with
    | error fault => exact absurd (surveyed.symm.trans (survey_eq_error hr)) (by simp)
    | ok root =>
      cases hg : Glob.parseAll configuration.excludes with
      | error fault => exact absurd (surveyed.symm.trans (survey_eq_invalidGlob hr hg)) (by simp)
      | ok excludes =>
        exact ⟨root, excludes, rfl, rfl, Except.ok.inj (surveyed.symm.trans (survey_eq_ok hr hg))⟩
  · rintro ⟨root, excludes, hr, hg, rfl⟩
    exact survey_eq_ok hr hg

end Survey

end SourceSurvey.Scan

namespace SourceSurvey.CommandLine

open Text Scan

/-! ### The warning of a run -/

/-- The warning that there is no descriptor below a root. -/
def emptyWarning (root : Text) : Text :=
  ofLines ["Warning: No project descriptors found under ".toList ++ root]

theorem warnings_of_accounts {disk : Disk} {excludes : List Glob}
    {discovered : Listing FoundDescriptor} {report : Report}
    (h : report.Accounts disk excludes discovered) :
    warnings report = if discovered.found = [] then emptyWarning report.root else [] := by
  have nothing : foundNothing report = true ↔ discovered.found = [] := by
    rw [← List.length_eq_zero_iff, ← h.descriptors, foundNothing, Bool.and_eq_true,
      List.isEmpty_iff, Nat.add_eq_zero_iff,
      List.length_eq_zero_iff, List.length_eq_zero_iff, List.filter_eq_nil_iff, Bool.not_eq_true',
        List.any_eq_false]
  rw [warnings]
  by_cases hf : discovered.found = []
  · rw [if_pos (nothing.mpr hf), if_pos hf]
    rfl
  · rw [if_neg fun hn => hf (nothing.mp hn), if_neg hf]

/-- Behind its warnings a scan says at most where the report went, or that it could not be written.
-/
theorem notices_carryOut_planReport (session : Session) (disk : Disk) (request : ScanRequest)
    (report : Report) :
    ∃ rest, ((planReport session disk request report).carryOut disk).1.notices = warnings
      report ++ rest ∧
      (rest = [] ∨ "Wrote ".toList <+: rest ∨ "Error: ".toList <+: rest) := by
  let path := Path.join disk.current (request.out.getD (reportName session.stamp))
  simp only [planReport, Plan.carryOut]
  split
  · cases request.format with
    | human => exact ⟨[], (List.append_nil _).symm, .inl rfl⟩
    | json => exact ⟨_, rfl, .inr (.inl ⟨path ++ ['\n'], by simp [ofLines, path]⟩)⟩
  · exact ⟨_, rfl,
      .inr (.inr ⟨"failed to write ".toList ++ path ++ ['\n'], by simp [ofLines, path]⟩)⟩

theorem emptyWarning_prefix_iff {root rest : Text}
    (h : rest = [] ∨ "Wrote ".toList <+: rest ∨ "Error: ".toList <+: rest)
    (p : Prop) [Decidable p] :
    emptyWarning root <+: (if p then emptyWarning root else []) ++ rest ↔ p := by
  constructor
  · intro hw
    by_contra hp
    rw [if_neg hp, List.nil_append] at hw
    obtain ⟨behind, rfl⟩ := hw
    rcases h with h | ⟨other, h⟩ | ⟨other, h⟩
    · exact absurd h (by simp [emptyWarning, ofLines])
    · exact absurd (congrArg (List.take 2) h) (by simp [emptyWarning, ofLines])
    · exact absurd (congrArg (List.take 2) h) (by simp [emptyWarning, ofLines])
  · intro hp
    rw [if_pos hp]
    exact List.prefix_append _ _

/-- A survey of a usable root under valid globs gives a report that accounts for every descriptor
and every source, and a run that asks for it warns exactly if no descriptor was found. -/
theorem survey_accounts {disk : Disk} {configuration : Configuration} {root : Text}
    {excludes : List Glob} (hr : resolveRoot disk configuration.root = .ok root)
    (hg : Glob.parseAll configuration.excludes = .ok excludes) :
    ∃ report, survey disk configuration = .ok report ∧
      report.Accounts disk excludes (discover disk root configuration.ecosystems) ∧
      ∀ session arguments request, Command.read arguments = .ok (.scan request) →
        request.configuration = configuration →
        (emptyWarning root <+: (run session disk arguments).1.notices ↔
          (discover disk root configuration.ecosystems).found = []) := by
  let report := surveyFrom disk root configuration.ecosystems excludes
  have surveyed : survey disk configuration = .ok report := survey_eq_ok hr hg
  have accounts := accounts_surveyFrom disk root configuration.ecosystems excludes
  refine ⟨report, surveyed, accounts, fun session arguments request ha hc => ?_⟩
  have planned : plan session disk arguments = planReport session disk request report := by
    rw [plan, ha]
    show planScan session disk request = _
    rw [planScan, hc, surveyed]
  obtain ⟨rest, notices, told⟩ := notices_carryOut_planReport session disk request report
  rw [run, planned, notices, warnings_of_accounts accounts]
  exact emptyWarning_prefix_iff told _

/-- What cannot be opened by anybody. -/
def denied : DiskFault := .refused "Permission denied".toList 13

/-- A tree in which something goes wrong at every stage: a directory of a project and one of its
sources cannot be opened, one descriptor cannot be read, and one is never closed. -/
def appDisk : Disk where
  root := .dir [("work".toList, .dir [
    ("app".toList, .dir [
      ("App.csproj".toList, .file (encode "<Project/>".toList)),
      ("App.g.cs".toList, .file (encode "class Made \x7b \x7d".toList)),
      ("Shut.cs".toList, .lockedFile denied),
      ("own".toList, .lockedDir denied)]),
    ("bad".toList, .dir [("Bad.csproj".toList, .file (encode "<Project>".toList))]),
    ("shut".toList, .dir [("pom.xml".toList, .lockedFile denied)])])]
  current := "/work".toList

def appConfiguration : Configuration := ⟨['.'], Ecosystem.all, ["*.g.cs".toList]⟩

def madeSources : Glob :=
  ⟨"*.g.cs".toList, Glob.patternOf
    [.anyBytes, .literal '.', .literal 'g', .literal '.', .literal 'c', .literal 's']⟩

theorem survey_accounts_appDisk :
    resolveRoot appDisk appConfiguration.root = .ok "/work".toList ∧
      Glob.parseAll appConfiguration.excludes = .ok [madeSources] ∧
      (discover appDisk "/work".toList Ecosystem.all).found =
        [⟨"/work/app/App.csproj".toList, .dotnet⟩, ⟨"/work/bad/Bad.csproj".toList, .dotnet⟩,
          ⟨"/work/shut/pom.xml".toList, .maven⟩] ∧
      ∃ report, survey appDisk appConfiguration = .ok report ∧
        report.Accounts appDisk [madeSources] (discover appDisk "/work".toList Ecosystem.all) ∧
        (report.diagnostics.map fun g => (g.path, g.stage)).Perm
          [("/work/app/own".toList, .discover), ("/work/bad/Bad.csproj".toList, .descriptor),
            ("/work/shut/pom.xml".toList, .descriptor), ("/work/app/own".toList, .discover),
            ("/work/app/Shut.cs".toList, .read)] ∧
        ∀ session : Session, ¬emptyWarning "/work".toList <+:
          (run session appDisk
            ["--dir".toList, ".".toList, "--exclude".toList, "*.g.cs".toList]).1.notices := by
  have root : resolveRoot appDisk appConfiguration.root = .ok "/work".toList := rfl
  have globs : Glob.parseAll appConfiguration.excludes = .ok [madeSources] := rfl
  have found : (discover appDisk "/work".toList Ecosystem.all).found =
      [⟨"/work/app/App.csproj".toList, .dotnet⟩, ⟨"/work/bad/Bad.csproj".toList, .dotnet⟩,
        ⟨"/work/shut/pom.xml".toList, .maven⟩] := by
    rw [discover, sortedDistinct, List.mergeSort_of_pairwise (by decide +kernel)]
    decide +kernel
  obtain ⟨report, surveyed, accounts, warned⟩ := survey_accounts root globs
  refine ⟨root, globs, found, report, surveyed, accounts, ?_, fun session => ?_⟩
  · have told := (accounts.diagnostics).map fun g => (g.path, g.stage)
    rw [accounts.projects, show appConfiguration.ecosystems = Ecosystem.all from rfl, found] at told
    refine told.trans (.of_eq ?_)
    decide +kernel
  · have asked := warned session ["--dir".toList, ".".toList, "--exclude".toList, "*.g.cs".toList]
      ⟨appConfiguration, true, none, false, .human⟩ rfl rfl
    rw [asked]
    exact fun h => absurd (found.symm.trans h) (by simp)

end SourceSurvey.CommandLine
