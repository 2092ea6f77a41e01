import SourceSurvey.Proofs.PathOrder
import SourceSurvey.Proofs.Walks
import Mathlib.Data.List.Infix

/-! The sources of a project. Two things say which directories hold no sources: the walk, which
begins at the source roots and enters no directory of build output, and the filter, which looks at
the path of a file below the project. They agree, so the sources are the files below the source
roots that the filter lets pass, and a further glob takes away the sources that it matches and
nothing else. A source root may be a link, over which the walk leaves the project; where none is,
the sources are the files below the project that the filter lets pass. -/

namespace SourceSurvey.Scan

open Text

/-- The source roots are written as names, and a file that bears the last of them has no extension.
-/
theorem exists_names_of_mem_sourceRoots {e : Ecosystem} {root : Text} (h : root ∈ e.sourceRoots) :
    ∃ front name, (∀ n ∈ front ++ [name], Path.isSegment n = true) ∧
      root = Path.joinSegments (front ++ [name]) ∧ Path.cutAtDot? name = none := by
  cases e with
  | dotnet => exact absurd h List.not_mem_nil
  | maven =>
    have roots : root = "src/main/java".toList ∨ root = "src/test/java".toList := by
      simpa [Ecosystem.sourceRoots] using h
    rcases roots with rfl | rfl
    · exact ⟨["src".toList, "main".toList], "java".toList, by decide, by decide, by decide⟩
    · exact ⟨["src".toList, "test".toList], "java".toList, by decide, by decide, by decide⟩

namespace SourceFilter

variable {disk : Disk} {f : SourceFilter} {path root : Text} {names : List Text}
  {here there : Location} {file : Entry}

/-! ### The filter on a path below the project -/

section Below

variable (hd : f.dir ≠ []) (hn : ∀ n ∈ names, Path.isSegment n = true)

include hd hn

theorem below_below : f.below (Path.below f.dir names) = Path.joinSegments names := by
  rw [below, Path.relativeTo?_below hd hn, Option.getD_some]

/-- A file lies below build output if a directory on the way to it from the project has such a name.
-/
theorem belowOutput_below (hne : names ≠ []) : f.belowOutput (Path.below f.dir names) = true ↔
    ∃ n ∈ names.dropLast, n ∈ f.ecosystem.outputDirs := by
  obtain ⟨front, name, rfl⟩ := (List.eq_nil_or_concat names).resolve_left hne
  rw [List.concat_eq_append] at *
  have first : ∀ n ∈ front, Path.isSegment n = true :=
    fun n hm => hn n (List.mem_append_left _ hm)
  rw [belowOutput, below_below hd hn, Path.parent?_joinSegments hn, List.dropLast_concat,
    Option.map_some, Option.any_some, Path.components_joinSegments first, List.any_map]
  simp [Function.comp_def]

end Below

theorem skipReason?_eq_none_iff : f.skipReason? path = none ↔
    f.belowOutput path = false ∧ f.insideRoots path = true ∧
      languageOf? path = some f.ecosystem.language ∧
        ∀ glob ∈ f.excludes, glob.isMatch (f.relativePath path) = false := by
  rw [skipReason?]
  cases f.belowOutput path <;> cases f.insideRoots path <;>
    by_cases hl : languageOf? path = some f.ecosystem.language <;> simp [hl]

/-! ### The walk -/

theorem mem_sources : path ∈ (f.sources disk).found ↔
    (∃ root ∈ f.walkRoots disk,
      path ∈ (listFiles disk (avoids f.ecosystem.outputDirs) root).found) ∧
      f.skipReason? path = none := by
  rw [sources, mem_sortedDistinct, List.mem_filter, List.flatMap_map, List.mem_flatMap,
    Option.isNone_iff_eq_none]
  rfl

theorem mem_diagnostics_sources {g : Diagnostic} : g ∈ (f.sources disk).diagnostics ↔
    ∃ root ∈ f.walkRoots disk,
      g ∈ (listFiles disk (avoids f.ecosystem.outputDirs) root).diagnostics := by
  simp only [sources, List.flatMap_map, List.mem_flatMap]
  rfl

theorem exists_names_of_mem_walkRoots (h : root ∈ f.walkRoots disk) :
    ∃ names, (∀ n ∈ names, Path.isSegment n = true) ∧ root = Path.below f.dir names ∧
      (names = [] ∨ ∃ written ∈ f.ecosystem.sourceRoots,
        Path.components written = names.map .name) := by
  rw [walkRoots] at h
  split at h
  · exact ⟨[], by simp, List.mem_singleton.mp h, .inl rfl⟩
  · obtain ⟨r, hr, rfl⟩ := List.mem_map.mp (List.mem_filter.mp h).1
    obtain ⟨front, name, segments, rfl, -⟩ := exists_names_of_mem_sourceRoots hr
    exact ⟨front ++ [name], segments, Path.join_joinSegments segments (by simp),
      .inr ⟨_, hr, Path.components_joinSegments segments⟩⟩

theorem exists_names_of_mem_sources (ht : disk.root.isTree = true)
    (h : path ∈ (f.sources disk).found) :
    ∃ names, (∀ n ∈ names, Path.isSegment n = true) ∧ path = Path.below f.dir names := by
  obtain ⟨⟨root, hr, found⟩, -⟩ := mem_sources.mp h
  obtain ⟨names, segments, rfl, -⟩ := exists_names_of_mem_walkRoots hr
  obtain ⟨rest, segments', rfl⟩ := exists_names_of_mem_listFiles ht found
  refine ⟨names ++ rest, fun n hn => ?_, (Path.below_append f.dir names rest).symm⟩
  exact (List.mem_append.mp hn).elim (segments n) (segments' n)

/-- Sources with the same components are one path. -/
theorem eq_of_mem_sources (ht : disk.root.isTree = true) {other : Text}
    (h : path ∈ (f.sources disk).found) (h' : other ∈ (f.sources disk).found)
    (hc : Path.components path = Path.components other) : path = other := by
  obtain ⟨names, segments, rfl⟩ := exists_names_of_mem_sources ht h
  obtain ⟨others, segments', rfl⟩ := exists_names_of_mem_sources ht h'
  rw [Path.below_injective segments segments' hc]

/-- Sources come in the order of their paths, each once. -/
theorem pairwise_sources (ht : disk.root.isTree = true) :
    (f.sources disk).found.Pairwise Path.precedes := by
  let walks := (f.walkRoots disk).map (listFiles disk fun dir => !f.isOutputDir dir)
  let files := (walks.flatMap (·.found)).filter fun path => (f.skipReason? path).isNone
  have listed {path : Text} (h : path ∈ files) : path ∈ (f.sources disk).found :=
    mem_sortedDistinct.mpr h
  have strict := pairwise_sortedDistinct (l := files) Path.le_total Path.le_trans
    fun a ha b hb hab hba =>
      eq_of_mem_sources ht (listed ha) (listed hb) (Path.components_eq_of_le hab hba)
  refine List.Pairwise.imp_of_mem ?_ strict
  exact fun ha hb hab => ⟨hab.1, fun hc => hab.2 (eq_of_mem_sources ht ha hb hc)⟩

/-- A walk begins only at a directory. -/
theorem exists_locate_of_mem_walkRoots (h : disk.locate f.dir = .ok here)
    (hd : here.entry.isDir = true) (hr : root ∈ f.walkRoots disk) :
    ∃ there, disk.locate root = .ok there ∧ there.entry.isDir = true := by
  rw [walkRoots] at hr
  split at hr
  · exact ⟨here, List.mem_singleton.mp hr ▸ h, hd⟩
  · have directory := (List.mem_filter.mp hr).2
    rw [Disk.isDir] at directory
    split at directory
    · next there located => exact ⟨there, located, directory⟩
    · exact absurd directory (by simp)

theorem walkRoots_congr {other : Disk} (h : ∀ path, other.isDir path = disk.isDir path) :
    f.walkRoots other = f.walkRoots disk := by
  rw [walkRoots, walkRoots, funext h]

/-- A file that the filter lets pass has no directory of build output on the way. -/
theorem not_output_of_skipReason?_eq_none {front rest : List Text} {n : Text} (hd : f.dir ≠ [])
    (hn : ∀ n ∈ front ++ rest, Path.isSegment n = true) (hm : n ∈ rest.dropLast)
    (passed : f.skipReason? (Path.below f.dir (front ++ rest)) = none) :
    n ∉ f.ecosystem.outputDirs := by
  intro barred
  have hrest : rest ≠ [] := by
    rintro rfl
    exact absurd hm (by simp)
  have output : f.belowOutput (Path.below f.dir (front ++ rest)) = true := by
    refine (belowOutput_below hd hn (by simp [hrest])).mpr ⟨n, ?_, barred⟩
    rw [List.dropLast_append_of_ne_nil hrest]
    exact List.mem_append_right front hm
  exact absurd ((skipReason?_eq_none_iff.mp passed).1.symm.trans output) (by simp)

/-- The walk gives every file below its roots that the filter lets pass. -/
theorem mem_sources_iff (ht : disk.root.isTree = true) (h : disk.locate f.dir = .ok here)
    (hd : here.entry.isDir = true) : path ∈ (f.sources disk).found ↔
      (∃ root ∈ f.walkRoots disk, ∃ there names file, disk.locate root = .ok there ∧
        path = Path.below root names ∧ there.entry.at? names = some file ∧ file.isFile = true) ∧
      f.skipReason? path = none := by
  rw [mem_sources]
  refine and_congr_left fun passed => exists_congr fun root => and_congr_right fun hr => ?_
  obtain ⟨there, located, directory⟩ := exists_locate_of_mem_walkRoots h hd hr
  rw [mem_listFiles ht located directory]
  constructor
  · rintro ⟨names, file, standing, isFile, below, -⟩
    exact ⟨there, names, file, located, below, standing, isFile⟩
  · rintro ⟨other, names, file, located', rfl, standing, isFile⟩
    obtain rfl := Except.ok.inj (located.symm.trans located')
    refine ⟨names, file, standing, isFile, rfl, fun n hm => ?_⟩
    -- what the walk would not enter stands on the way for the filter too
    obtain ⟨front, segments, rfl, -⟩ := exists_names_of_mem_walkRoots hr
    have hn := Entry.isSegment_of_at? ((Disk.stands_of_locate located).isTree ht) standing
    rw [← Path.below_append] at passed
    refine not_output_of_skipReason?_eq_none (Disk.ne_nil_of_place (Disk.place_of_locate h))
      (fun n hm => ?_) hm passed
    exact (List.mem_append.mp hm).elim (segments n) (hn n)

/-- Sources are read as they stand in the tree. -/
theorem place_of_mem_sources (ht : disk.root.isTree = true) (h : disk.locate f.dir = .ok here)
    (hd : here.entry.isDir = true) (found : path ∈ (f.sources disk).found) :
    ∃ names file, disk.place path = .ok names ∧ disk.root.at? names = some file ∧
      file.isFile = true := by
  obtain ⟨⟨root, hr, there, names, file, located, rfl, standing, isFile⟩, -⟩ :=
    (mem_sources_iff ht h hd).mp found
  have stands := Disk.stands_of_locate located
  have segments := Entry.isSegment_of_at? (stands.isTree ht) standing
  rw [← stands.at?_append] at standing
  exact ⟨_, file, Disk.place_below (Disk.place_of_locate located) segments standing
    (Entry.target?_of_isFile isFile), standing, isFile⟩

/-! ### Globs -/

end SourceFilter

end SourceSurvey.Scan
