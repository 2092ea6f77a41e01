import SourceSurvey.Proofs.Removal
import SourceSurvey.Proofs.Spelling
import SourceSurvey.Proofs.TreeSurveys

/-! Faults of descriptors stay by themselves. In a tree without links a descriptor that gives no
project gives one diagnostic and has no other effect: the survey of the tree without that file has
the same projects with the same sources and the same relations, and its diagnostics are the
others. -/

namespace SourceSurvey

open Text

/-! ### Names of descriptors -/

theorem eq_dot_of_toLower {c : Char} (h : c.toLower = '.') : c = '.' := by
  by_cases upper : c.val ≥ 'A'.val ∧ c.val ≤ 'Z'.val
  · have lower : c.toLower = ⟨c.val + ('a'.val - 'A'.val), _⟩ := dif_pos upper
    rw [h] at lower
    have moved : 46 = (c.toNat + 32) % 4294967296 := by
      simpa using congrArg (fun d : Char => d.val.toNat) lower
    have letter : 65 ≤ c.toNat ∧ c.toNat ≤ 90 := by simpa [UInt32.le_iff_toNat_le] using upper
    omega
  · have same : c.toLower = c := dif_neg upper
    exact same.symm.trans h

theorem Path.cutAtDot?_append {stem last : Text} (h : '.' ∉ last) :
    Path.cutAtDot? (stem ++ '.' :: last) = if stem = [] then none else some (stem, last) := by
  have behind : ((stem ++ '.' :: last).reverse.takeWhile (· ≠ '.')).reverse = last := by
    rw [List.reverse_append, List.reverse_cons, List.append_assoc, List.singleton_append]
    have plain : ∀ c ∈ last.reverse, decide (c ≠ '.') = true := by
      intro c hc
      refine decide_eq_true ?_
      rintro rfl
      exact h (List.mem_reverse.mp hc)
    rw [List.takeWhile_append_of_pos plain, List.takeWhile_cons_of_neg (by simp), List.append_nil,
      List.reverse_reverse]
  have front :
      (stem ++ '.' :: last).take ((stem ++ '.' :: last).length - last.length - 1) = stem := by
    rw [show (stem ++ '.' :: last).length - last.length - 1 = stem.length by simp; omega,
      List.take_left]
  have longer : last.length ≠ (stem ++ '.' :: last).length := by
    rw [List.length_append, List.length_cons]
    omega
  rw [Path.cutAtDot?]
  simp only [behind, front, longer, false_or]

/-! ### Relations -/

/-- Projects with absolute paths are related in one way by normal forms that agree on absolute
paths. -/
theorem Graph.relations_congr {projects : List Project} {normal other : Text → Text}
    (h : ∀ path, Path.isAbsolute path = true → other path = normal path)
    (ha : ∀ p ∈ projects, Path.isAbsolute p.path = true ∧ Path.isAbsolute p.dir = true) :
    Graph.relations projects other = Graph.relations projects normal := by
  have resolve (dir included : Text) (hd : Path.isAbsolute dir = true) :
      Path.resolveInclude dir included other = Path.resolveInclude dir included normal := by
    refine h _ ?_
    cases ha : Path.isAbsolute (Path.display included) with
    | true => rwa [Path.join, if_pos ha]
    | false => rwa [Path.isAbsolute_join ha]
  have index : Graph.Index.ofProjects projects other = Graph.Index.ofProjects projects normal := by
    refine List.foldl_ext _ _ _ fun index p hp => ?_
    simp only [Graph.Index.add, h _ (ha p hp).1, h _ (ha p hp).2]
  have references : ∀ p ∈ projects, ∀ index,
      Graph.referencesOf index p other = Graph.referencesOf index p normal := by
    intro p hp index
    cases p with
    | maven pom => rfl
    | dotnet csproj =>
      have dir : Path.isAbsolute csproj.dir = true := (ha _ hp).2
      refine List.map_congr_left fun reference _ => ?_
      rw [Graph.referenceEdge, Graph.referenceEdge, resolve _ _ dir]
  have modules : ∀ p ∈ projects, Graph.modulesOf p other = Graph.modulesOf p normal := by
    intro p hp
    cases p with
    | dotnet csproj => rfl
    | maven pom =>
      have dir : Path.isAbsolute pom.dir = true := (ha _ hp).2
      exact List.map_congr_left fun m _ => by rw [resolve _ _ dir]
  simp only [Graph.relations, index]
  congr 1
  · exact List.flatMap_congr fun p hp => references p hp _
  · exact List.flatMap_congr modules

namespace Scan

/-- A descriptor is written in no source language. -/
theorem languageOf?_descriptor {e : Ecosystem} {name path : Text} (hd : e.isDescriptor name = true)
    (hn : Path.fileName? path = some name) : languageOf? path = none := by
  rw [languageOf?, Path.extension?, hn, Option.bind_some]
  cases e with
  | maven =>
    rw [of_decide_eq_true hd]
    decide
  | dotnet =>
    obtain ⟨front, lower⟩ := List.isSuffixOf_iff_suffix.mp hd
    obtain ⟨stem, ending, rfl, -, lower⟩ := List.map_eq_append_iff.mp lower.symm
    obtain ⟨dot, last, rfl, point, letters⟩ := List.map_eq_cons_iff.mp lower
    obtain rfl := eq_dot_of_toLower point
    have plain : '.' ∉ last := by
      intro hm
      have lowered : '.' ∈ last.map Char.toLower := List.mem_map.mpr ⟨'.', hm, rfl⟩
      rw [letters] at lowered
      exact absurd lowered (by decide)
    rw [Path.cutAtDot?_append plain]
    split
    · rfl
    · simp only [Option.map_some, Option.bind_some, Language.ofExtension?, letters]
      decide

/-! ### A tree without a descriptor -/

section Lacks

variable {disk other : Disk} {gone led front : List Text} {holder : Entry} {here : Location}
  {name path root : Text} {ecosystems : List Ecosystem} {excludes : List Glob} {d : FoundDescriptor}
  {e : Ecosystem} {f : SourceFilter} {p : Project} (h : disk.Lacks other gone)

include h

/-- The sources of a project are what they were, since no descriptor is a source. -/
theorem sources_of_lacks (hg : gone = front ++ [name]) (hn : e.isDescriptor name = true)
    (hp : disk.locate f.dir = .ok here) (hd : here.entry.isDir = true) :
    f.sources other = f.sources disk := by
  have roots : f.walkRoots other = f.walkRoots disk := SourceFilter.walkRoots_congr h.isDir
  have found : (f.sources other).found = (f.sources disk).found := by
    refine (SourceFilter.pairwise_sources h.other_tree).eq_of_mem_iff
      (SourceFilter.pairwise_sources h.tree) fun path => ?_
    rw [SourceFilter.mem_sources, SourceFilter.mem_sources, roots]
    refine and_congr_left fun passed => exists_congr fun root => and_congr_right fun hr => ?_
    obtain ⟨there, located, directory⟩ := SourceFilter.exists_locate_of_mem_walkRoots hp hd hr
    rw [h.mem_listFiles_iff located directory]
    refine and_iff_left_of_imp fun listed same => ?_
    have last := fileName?_of_mem_listFiles h.tree located directory listed (hg ▸ same)
    obtain ⟨-, -, language, -⟩ := SourceFilter.skipReason?_eq_none_iff.mp passed
    exact absurd ((languageOf?_descriptor hn last).symm.trans language) (by simp)
  have diagnostics : (f.sources other).diagnostics = (f.sources disk).diagnostics := by
    simp only [SourceFilter.sources, roots, List.flatMap_map]
    refine List.flatMap_congr fun root hr => ?_
    obtain ⟨there, located, directory⟩ := SourceFilter.exists_locate_of_mem_walkRoots hp hd hr
    exact h.diagnostics_listFiles located directory
  exact congrArg₂ Listing.mk found diagnostics

theorem surveyProject_of_lacks (hg : gone = front ++ [name]) (hn : e.isDescriptor name = true)
    (hp : disk.locate p.dir = .ok here) (hd : here.entry.isDir = true) :
    surveyProject other excludes p = surveyProject disk excludes p := by
  have sources := sources_of_lacks (f := ⟨p.dir, p.ecosystem, excludes⟩) h hg hn hp hd
  obtain ⟨there, located, -, directory⟩ := h.exists_locate hp hd
  have read (path : Text)
      (hm : path ∈ (SourceFilter.sources disk ⟨p.dir, p.ecosystem, excludes⟩).found) :
      readSummary other p.ecosystem.language path = readSummary disk p.ecosystem.language path := by
    rw [← sources] at hm
    obtain ⟨names, file, place, -⟩ :=
      SourceFilter.place_of_mem_sources h.other_tree located directory hm
    obtain ⟨place, apart⟩ := h.place_eq_ok_iff.mp place
    rw [readSummary, readSummary, h.read place apart]
  simp only [surveyProject, summarizeSources, sources, List.map_congr_left read]

section Root

variable (hl : disk.root.at? led = some holder) (hd : holder.isDir = true)

include hl hd

theorem mem_discover_of_lacks :
    d ∈ (discover other (Path.below ['/'] led) ecosystems).found ↔
      d ∈ (discover disk (Path.below ['/'] led) ecosystems).found ∧
        disk.place d.path ≠ .ok gone := by
  obtain ⟨here, located, -, rfl⟩ := locate_root h.tree hl hd
  rw [mem_discover, mem_discover, h.mem_listFiles_iff located hd]
  tauto

/-- The descriptors that are left are those that were found, less the one that is gone. -/
theorem exists_found_eq (hf : d ∈ (discover disk (Path.below ['/'] led) ecosystems).found)
    (hg : disk.place d.path = .ok gone) : ∃ front back,
      (discover disk (Path.below ['/'] led) ecosystems).found = front ++ d :: back ∧
      (discover other (Path.below ['/'] led) ecosystems).found = front ++ back := by
  obtain ⟨front, back, found⟩ := List.append_of_mem hf
  refine ⟨front, back, found, ?_⟩
  have strict := pairwise_discover (Path.below ['/'] led) ecosystems h.tree
  have strict' := pairwise_discover (Path.below ['/'] led) ecosystems h.other_tree
  have once := strict.nodup
  rw [found] at strict once
  have absent : d ∉ front ++ back := (List.nodup_cons.mp (List.nodup_middle.mp once)).1
  have less : (front ++ back).Sublist (front ++ d :: back) :=
    (List.sublist_cons_self d back).append_left front
  refine strict'.eq_of_mem_iff (strict.sublist less) fun d' => ?_
  rw [mem_discover_of_lacks h hl hd]
  constructor
  · rintro ⟨hm, apart⟩
    rw [found, List.mem_append, List.mem_cons] at hm
    rcases hm with hm | rfl | hm
    · exact List.mem_append_left back hm
    · exact absurd hg apart
    · exact List.mem_append_right front hm
  · intro hm
    have hm' : d' ∈ (discover disk (Path.below ['/'] led) ecosystems).found :=
      found ▸ less.subset hm
    refine ⟨hm', fun same => absent ?_⟩
    rwa [← eq_of_place h.tree hl hd hm' hf (same.trans hg.symm)]

theorem readProject_of_lacks (hf : d ∈ (discover other (Path.below ['/'] led) ecosystems).found) :
    readProject other d.ecosystem d.path = readProject disk d.ecosystem d.path := by
  obtain ⟨found, apart⟩ := (mem_discover_of_lacks h hl hd).mp hf
  obtain ⟨names, file, place, -⟩ := place_of_mem_discover h.tree hl hd found
  rw [readProject, readProject, h.read place fun same => apart (same ▸ place)]

/-- Without a descriptor that gives no project the projects are the same. -/
theorem projects_of_lacks (hf : d ∈ (discover disk (Path.below ['/'] led) ecosystems).found)
    (hg : disk.place d.path = .ok gone) (hp : projectAt? disk d = none) :
    (discover other (Path.below ['/'] led) ecosystems).found.filterMap (projectAt? other) =
      (discover disk (Path.below ['/'] led) ecosystems).found.filterMap (projectAt? disk) := by
  obtain ⟨front, back, found, found'⟩ := exists_found_eq h hl hd hf hg
  have read : ∀ d' ∈ (discover other (Path.below ['/'] led) ecosystems).found,
      projectAt? other d' = projectAt? disk d' :=
    fun d' hm => by rw [projectAt?, projectAt?, readProject_of_lacks h hl hd hm]
  rw [List.filterMap_congr read, found, found', List.filterMap_append, List.filterMap_append,
    List.filterMap_cons_none hp]

/-- The projects are surveyed as before. -/
theorem surveyed_of_lacks (hg : gone = front ++ [name]) (hn : e.isDescriptor name = true) :
    ∀ p ∈ (discover disk (Path.below ['/'] led) ecosystems).found.filterMap (projectAt? disk),
      surveyProject other excludes p = surveyProject disk excludes p := by
  intro p hp
  obtain ⟨d, hf, parsed⟩ := List.mem_filterMap.mp hp
  obtain ⟨here, located, directory⟩ := locate_dir_of_mem_discover h.tree hl hd hf parsed
  exact surveyProject_of_lacks h hg hn located directory

/-- Without a descriptor that gives no project its diagnostic is missing and no other. -/
theorem failures_of_lacks (excludes : List Glob) {g : Diagnostic} (hn : gone = front ++ [name])
    (ht : e.isDescriptor name = true)
    (hf : d ∈ (discover disk (Path.below ['/'] led) ecosystems).found)
    (hg : disk.place d.path = .ok gone) (hp : projectAt? disk d = none)
    (hd' : failureAt? disk d = some g) : ∃ first last,
      failures disk (Path.below ['/'] led) ecosystems excludes = first ++ g :: last ∧
      failures other (Path.below ['/'] led) ecosystems excludes = first ++ last := by
  obtain ⟨front, back, found, found'⟩ := exists_found_eq h hl hd hf hg
  obtain ⟨here, located, -, rfl⟩ := locate_root h.tree hl hd
  have projects := projects_of_lacks h hl hd hf hg hp
  have walk : (discover other (Path.below ['/'] led) ecosystems).diagnostics =
      (discover disk (Path.below ['/'] led) ecosystems).diagnostics :=
    h.diagnostics_listFiles located hd
  have read : ∀ d' ∈ (discover other (Path.below ['/'] led) ecosystems).found,
      failureAt? other d' = failureAt? disk d' :=
    fun d' hm => by rw [failureAt?, failureAt?, readProject_of_lacks h hl hd hm]
  have sources : ((discover disk (Path.below ['/'] led) ecosystems).found.filterMap
      (projectAt? disk)).flatMap (sourceFailures other excludes) =
        ((discover disk (Path.below ['/'] led) ecosystems).found.filterMap
          (projectAt? disk)).flatMap (sourceFailures disk excludes) := by
    refine List.flatMap_congr fun p hm => ?_
    rw [← snd_surveyProject, ← snd_surveyProject, surveyed_of_lacks h hl hd hn ht p hm]
  refine ⟨(discover disk (Path.below ['/'] led) ecosystems).diagnostics ++
    front.filterMap (failureAt? disk), back.filterMap (failureAt? disk) ++
      ((discover disk (Path.below ['/'] led) ecosystems).found.filterMap
        (projectAt? disk)).flatMap (sourceFailures disk excludes), ?_, ?_⟩
  · rw [failures, found, List.filterMap_append (f := failureAt? disk), List.filterMap_cons_some hd']
    simp
  · rw [failures, List.filterMap_congr read, projects, sources, walk, found',
      List.filterMap_append]
    simp

omit hl hd in
theorem resolveRoot_of_lacks {resolved : Text} (hr : resolveRoot disk root = .ok resolved) :
    resolveRoot other root = .ok resolved := by
  obtain ⟨led, holder, place, standing, directory, rfl⟩ := (resolveRoot_eq_ok_iff h.tree).mp hr
  obtain ⟨holder', standing', directory'⟩ := h.isDir_at?_iff.mpr ⟨holder, standing, directory⟩
  exact (resolveRoot_eq_ok_iff h.other_tree).mpr ⟨led, holder',
    h.place_eq_ok_iff.mpr ⟨place, h.ne_of_isDir standing directory⟩, standing', directory', rfl⟩

end Root

end Lacks

/-! ### Surveys -/

section Survey

variable {disk : Disk} {configuration : Configuration} {root : Text} {excludes : List Glob}
  {d : FoundDescriptor} {e : DescriptorError}

/-- A descriptor that was found is a file that can be taken out of the tree. -/
theorem exists_lacks_without {led : List Text} {holder : Entry} {ecosystems : List Ecosystem}
    (ht : disk.root.isTree = true) (hu : disk.root.Linkless)
    (hl : disk.root.at? led = some holder) (hd : holder.isDir = true)
    (hf : d ∈ (discover disk (Path.below ['/'] led) ecosystems).found) :
    ∃ front name, d.ecosystem.isDescriptor name = true ∧ disk.place d.path = .ok (front ++ [name]) ∧
      Path.names d.path = front ++ [name] ∧
        disk.Lacks (disk.without d.path) (front ++ [name]) := by
  obtain ⟨front, name, file, path, standing, isFile, told⟩ :=
    exists_path_of_mem_discover ht hl hd hf
  have above := Entry.isDir_of_at? hl hd
  have place : disk.place d.path = .ok (front ++ [name]) :=
    path ▸ Disk.place_below_root ht above standing (Entry.target?_of_isFile isFile)
  have absolute : Path.isAbsolute d.path = true := by
    rw [path, Path.below_root (Entry.isSegment_of_at? ht standing)]
    rfl
  have names : Path.names d.path = front ++ [name] := Disk.names_of_place hu absolute place
  refine ⟨front, name, told, place, names, ?_⟩
  rw [← names] at standing ⊢
  exact .of_without ht hu above standing isFile

/-- A descriptor that gives no project costs the survey of a tree without links one diagnostic:
without the file, whose names are all that changes in the tree, the survey has the same projects
with the same sources, the same relations and the other diagnostics. The canonical path of every
absolute path stays, so no reference is read in another way. -/
theorem survey_without (ht : disk.root.isTree = true) (hu : disk.root.Linkless)
    (hr : resolveRoot disk configuration.root = .ok root)
    (hg : Glob.parseAll configuration.excludes = .ok excludes)
    (hd : d ∈ (discover disk root configuration.ecosystems).found)
    (hf : readProject disk d.ecosystem d.path = .error e) :
    (∀ names, (disk.without d.path).root.sight names =
      if names = Path.names d.path then none else disk.root.sight names) ∧
    (∀ path, Path.isAbsolute path = true →
      (disk.without d.path).canonical path = disk.canonical path) ∧
    ∃ report report', survey disk configuration = .ok report ∧
      survey (disk.without d.path) configuration = .ok report' ∧ report'.root = report.root ∧
      report'.projects = report.projects ∧ report'.relations = report.relations ∧
      (∃ front back, report.diagnostics = front ++ .ofDescriptor e :: back ∧
        report'.diagnostics = front ++ back) ∧
      (Diagnostic.ofDescriptor e).stage = .descriptor ∧
      (Diagnostic.ofDescriptor e).path = d.path := by
  obtain ⟨led, holder, -, standing, directory, rfl⟩ := (resolveRoot_eq_ok_iff ht).mp hr
  obtain ⟨front, name, told, place, names, lacks⟩ :=
    exists_lacks_without ht hu standing directory hd
  have nowhere : projectAt? disk d = none := by rw [projectAt?, hf]
  have failure : failureAt? disk d = some (.ofDescriptor e) := by rw [failureAt?, hf]
  have projects := projects_of_lacks lacks standing directory hd place nowhere
  have canonical (path : Text) (ha : Path.isAbsolute path = true) :
      (disk.without d.path).canonical path = disk.canonical path := by
    rw [Disk.canonical_eq hu ha, Disk.canonical_eq lacks.other_linkless ha]
  obtain ⟨first, last, told_first, told_last⟩ := failures_of_lacks lacks standing directory excludes
    rfl told hd place nowhere failure
  refine ⟨fun names' => names ▸ lacks.sight names', canonical, _, _, survey_eq_ok hr hg,
    survey_eq_ok (resolveRoot_of_lacks lacks hr) hg, rfl, ?_, ?_, ?_, rfl,
    path_of_readProject hf⟩
  · simp only [surveyFrom, readProjects_eq, projects, List.map_map]
    refine List.map_congr_left fun p hp => congrArg Prod.fst ?_
    exact surveyed_of_lacks lacks standing directory rfl told p hp
  · simp only [surveyFrom, readProjects_eq, projects]
    refine Graph.relations_congr canonical fun p hp => ?_
    obtain ⟨d', hd', parsed⟩ := List.mem_filterMap.mp hp
    exact isAbsolute_of_mem_discover ht standing directory hd' parsed
  · rw [diagnostics_surveyFrom, diagnostics_surveyFrom, told_first, told_last]
    exact Diagnostic.exists_sort_eq fun g hm => recorded_of_mem_failures (told_first ▸ hm)

end Survey

/-- A tree with a project below a descriptor that is never closed, and with a directory that cannot
be opened. -/
def brokenDisk : Disk where
  root := .dir [("w".toList, .dir [
    ("A.csproj".toList, .file (encode "<Project>".toList)),
    ("B".toList, .dir [
      ("B.csproj".toList, .file (encode "<Project/>".toList)),
      ("B.cs".toList, .file (encode "class B { }".toList)),
      ("own".toList, .lockedDir (.refused "Permission denied".toList 13))])])]
  current := "/w".toList

def brokenConfiguration : Configuration := ⟨['.'], Ecosystem.all, []⟩

theorem survey_without_brokenDisk : brokenDisk.root.isTree = true ∧ brokenDisk.root.Linkless ∧
    resolveRoot brokenDisk brokenConfiguration.root = .ok "/w".toList ∧
    ⟨"/w/A.csproj".toList, .dotnet⟩ ∈ (discover brokenDisk "/w".toList Ecosystem.all).found ∧
    readProject brokenDisk .dotnet "/w/A.csproj".toList =
      .error (.malformed "/w/A.csproj".toList (Xml.Fault.message .unclosedRoot)) ∧
    ∃ report report', survey brokenDisk brokenConfiguration = .ok report ∧
      survey (brokenDisk.without "/w/A.csproj".toList) brokenConfiguration = .ok report' ∧
      report'.projects = report.projects ∧ report'.relations = report.relations ∧
      ∃ front back, report.diagnostics = front ++
          .ofDescriptor (.malformed "/w/A.csproj".toList (Xml.Fault.message .unclosedRoot)) ::
            back ∧
        report'.diagnostics = front ++ back := by
  have tree : brokenDisk.root.isTree = true := by decide
  have linkless : brokenDisk.root.Linkless := Entry.linkless_of_isLinkless (by decide)
  have root : resolveRoot brokenDisk brokenConfiguration.root = .ok "/w".toList := rfl
  have located : brokenDisk.locate "/w".toList = .ok _ := rfl
  have found : ⟨"/w/A.csproj".toList, .dotnet⟩ ∈
      (discover brokenDisk "/w".toList Ecosystem.all).found :=
    (mem_discover_iff tree located rfl).mpr
      ⟨by decide, [], "A.csproj".toList, _, rfl, rfl, rfl, by decide, by simp⟩
  have malformed : readProject brokenDisk .dotnet "/w/A.csproj".toList =
      .error (.malformed "/w/A.csproj".toList (Xml.Fault.message .unclosedRoot)) := rfl
  obtain ⟨-, -, report, report', surveyed, surveyed', -, projects, relations, diagnostics, -⟩ :=
    survey_without tree linkless root rfl found malformed
  exact ⟨tree, linkless, root, found, malformed, report, report', surveyed, surveyed', projects,
    relations, diagnostics⟩

end Scan

end SourceSurvey
