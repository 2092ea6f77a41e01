import SourceSurvey.Proofs.Accounting
import SourceSurvey.Proofs.DiagnosticOrder
import SourceSurvey.Proofs.Discoveries
import SourceSurvey.Proofs.SourceFiles

/-! Surveys of trees. The root of a survey is a directory of the tree, every descriptor that is
found is a file in such a directory, and the directory of every project is one. All that goes wrong
in a survey is recorded for a walk, a descriptor or a source. -/

namespace SourceSurvey.Scan

open Text

variable {disk : Disk} {led dirs : List Text} {holder : Entry} {ecosystems : List Ecosystem}
  {excludes : List Glob} {d : FoundDescriptor} {p : Project} {g : Diagnostic}

/-! ### What goes wrong -/

open Diagnostic

theorem recorded_of_mem_listFiles {enters : Text → Bool} {path : Text}
    (h : g ∈ (listFiles disk enters path).diagnostics) : Recorded g := by
  obtain ⟨fault, -, rfl⟩ := mem_diagnostics_listFiles.mp h
  exact .walk _ _

theorem recorded_of_failureAt? (h : failureAt? disk d = some g) : Recorded g := by
  rw [failureAt?] at h
  split at h
  · exact absurd h (by simp)
  · exact Option.some.inj h ▸ .descriptor _

theorem recorded_of_mem_sourceFailures (h : g ∈ sourceFailures disk excludes p) : Recorded g := by
  rcases List.mem_append.mp h with h | h
  · obtain ⟨root, -, told⟩ := SourceFilter.mem_diagnostics_sources.mp h
    exact recorded_of_mem_listFiles told
  · obtain ⟨path, -, told⟩ := List.mem_filterMap.mp h
    rw [unreadAt?] at told
    split at told
    · exact absurd told (by simp)
    · exact Option.some.inj told ▸ .read _ _

/-- What goes wrong in the survey of a root, in the order in which it is met. -/
def failures (disk : Disk) (root : Text) (ecosystems : List Ecosystem) (excludes : List Glob) :
    List Diagnostic :=
  let discovered := discover disk root ecosystems
  discovered.diagnostics ++ discovered.found.filterMap (failureAt? disk) ++
    (discovered.found.filterMap (projectAt? disk)).flatMap (sourceFailures disk excludes)

theorem diagnostics_surveyFrom (root : Text) :
    (surveyFrom disk root ecosystems excludes).diagnostics =
      Diagnostic.sort (failures disk root ecosystems excludes) := by
  simp only [surveyFrom, readProjects_eq, List.flatMap_map, snd_surveyProject, failures]

theorem recorded_of_mem_failures {root : Text} (h : g ∈ failures disk root ecosystems excludes) :
    Recorded g := by
  rcases List.mem_append.mp h with h | h
  · rcases List.mem_append.mp h with h | h
    · exact recorded_of_mem_listFiles h
    · obtain ⟨d, -, told⟩ := List.mem_filterMap.mp h
      exact recorded_of_failureAt? told
  · obtain ⟨p, -, told⟩ := List.mem_flatMap.mp h
    exact recorded_of_mem_sourceFailures told

/-! ### Roots -/

/-- A root that can be surveyed is a directory, and its path is written out from the root of the
tree. -/
theorem resolveRoot_eq_ok_iff (ht : disk.root.isTree = true) {root resolved : Text} :
    resolveRoot disk root = .ok resolved ↔ ∃ led holder, disk.place root = .ok led ∧
      disk.root.at? led = some holder ∧ holder.isDir = true ∧ resolved = Path.below ['/'] led := by
  rw [resolveRoot_eq]
  cases hp : disk.place root with
  | error fault => simp
  | ok led =>
    obtain ⟨here, -, -, standing⟩ := Disk.exists_locate hp
    have written := Path.below_root (Entry.isSegment_of_at? ht standing)
    simp only [Entry.sight_of_at? standing, Option.any_some, Entry.isDir_bare, ← written]
    constructor
    · intro h
      split at h
      · next directory => exact ⟨led, here.entry, rfl, standing, directory, (Except.ok.inj h).symm⟩
      · exact absurd h (by simp)
    · rintro ⟨there, holder, same, standing', directory, rfl⟩
      obtain rfl := Except.ok.inj same
      obtain rfl := Option.some.inj (standing.symm.trans standing')
      rw [if_pos directory]

section Root

variable (ht : disk.root.isTree = true) (hl : disk.root.at? led = some holder)
  (hd : holder.isDir = true)

include ht hl hd

theorem place_root : disk.place (Path.below ['/'] led) = .ok led :=
  Disk.place_below_root ht (Entry.isDir_of_at? hl hd) hl (Entry.target?_of_isDir hd)

theorem locate_root : ∃ here, disk.locate (Path.below ['/'] led) = .ok here ∧
    here.names = led ∧ here.entry = holder := by
  obtain ⟨here, located, names, standing⟩ := Disk.exists_locate (place_root ht hl hd)
  exact ⟨here, located, names, Option.some.inj (standing.symm.trans hl)⟩

/-- A descriptor that was found is a file in a directory. -/
theorem exists_path_of_mem_discover
    (hf : d ∈ (discover disk (Path.below ['/'] led) ecosystems).found) :
    ∃ dirs name file, d.path = Path.below ['/'] (dirs ++ [name]) ∧
      disk.root.at? (dirs ++ [name]) = some file ∧ file.isFile = true ∧
        d.ecosystem.isDescriptor name = true := by
  obtain ⟨here, located, rfl, rfl⟩ := locate_root ht hl hd
  obtain ⟨-, dirs, name, file, path, standing, isFile, told, -⟩ :=
    (mem_discover_iff ht located hd).mp hf
  rw [← (Disk.stands_of_locate located).at?_append, ← List.append_assoc] at standing
  refine ⟨here.names ++ dirs, name, file, ?_, standing, isFile, told⟩
  rw [path, List.append_assoc, Path.below_append ['/'] here.names]

theorem place_of_mem_discover (hf : d ∈ (discover disk (Path.below ['/'] led) ecosystems).found) :
    ∃ names file, disk.place d.path = .ok names ∧ disk.root.at? names = some file ∧
      file.isFile = true := by
  obtain ⟨dirs, name, file, path, standing, isFile, -⟩ := exists_path_of_mem_discover ht hl hd hf
  exact ⟨_, file, path ▸ Disk.place_below_root ht (Entry.isDir_of_at? hl hd) standing
    (Entry.target?_of_isFile isFile), standing, isFile⟩

/-- The directory of a project that was found is written out from the root of the tree. -/
theorem exists_dir_of_mem_discover
    (hf : d ∈ (discover disk (Path.below ['/'] led) ecosystems).found)
    (hp : projectAt? disk d = some p) : ∃ dirs above, p.dir = Path.below ['/'] dirs ∧
      disk.root.at? dirs = some above ∧ above.isDir = true := by
  obtain ⟨dirs, name, file, path, standing, -⟩ := exists_path_of_mem_discover ht hl hd hf
  obtain ⟨t, parsed⟩ := exists_parse_of_projectAt? hp
  obtain ⟨-, -, dir⟩ := names_of_parse parsed
  obtain ⟨above, held, directory, -⟩ := Entry.exists_holder standing (List.cons_ne_nil name [])
  refine ⟨dirs, above, ?_, held, directory⟩
  rw [dir, path, Path.parent?_below_root (Entry.isSegment_of_at? ht standing), Option.getD_some]

theorem locate_dir_of_mem_discover
    (hf : d ∈ (discover disk (Path.below ['/'] led) ecosystems).found)
    (hp : projectAt? disk d = some p) :
    ∃ here, disk.locate p.dir = .ok here ∧ here.entry.isDir = true := by
  obtain ⟨dirs, above, dir, held, directory⟩ := exists_dir_of_mem_discover ht hl hd hf hp
  obtain ⟨here, located, -, rfl⟩ := locate_root ht held directory
  exact ⟨here, dir ▸ located, directory⟩

theorem isAbsolute_of_mem_discover
    (hf : d ∈ (discover disk (Path.below ['/'] led) ecosystems).found)
    (hp : projectAt? disk d = some p) :
    Path.isAbsolute p.path = true ∧ Path.isAbsolute p.dir = true := by
  have written {names : List Text} {entry : Entry} (hs : disk.root.at? names = some entry) :
      Path.isAbsolute (Path.below ['/'] names) = true := by
    rw [Path.below_root (Entry.isSegment_of_at? ht hs)]
    rfl
  obtain ⟨dirs, above, dir, held, -⟩ := exists_dir_of_mem_discover ht hl hd hf hp
  obtain ⟨dirs', name, file, path, standing, -⟩ := exists_path_of_mem_discover ht hl hd hf
  rw [(projectAt?_names hp).1, path, dir]
  exact ⟨written standing, written held⟩

/-- Descriptors that were found at one place are one. -/
theorem eq_of_place {d' : FoundDescriptor}
    (hf : d ∈ (discover disk (Path.below ['/'] led) ecosystems).found)
    (hf' : d' ∈ (discover disk (Path.below ['/'] led) ecosystems).found)
    (hp : disk.place d.path = disk.place d'.path) : d = d' := by
  obtain ⟨dirs, name, file, path, standing, isFile, told⟩ :=
    exists_path_of_mem_discover ht hl hd hf
  obtain ⟨dirs', name', file', path', standing', isFile', told'⟩ :=
    exists_path_of_mem_discover ht hl hd hf'
  have hr := Entry.isDir_of_at? hl hd
  have same : dirs ++ [name] = dirs' ++ [name'] := by
    rw [path, path', Disk.place_below_root ht hr standing (Entry.target?_of_isFile isFile),
      Disk.place_below_root ht hr standing' (Entry.target?_of_isFile isFile')] at hp
    exact Except.ok.inj hp
  obtain ⟨rfl, last⟩ := List.append_inj' same rfl
  obtain rfl := List.singleton_inj.mp last
  obtain ⟨at_, ecosystem⟩ := d
  obtain ⟨at', ecosystem'⟩ := d'
  exact congrArg₂ FoundDescriptor.mk (path.trans path'.symm) (isDescriptor_unique told told')

end Root

end SourceSurvey.Scan
