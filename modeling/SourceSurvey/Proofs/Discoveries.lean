import SourceSurvey.Proofs.PathOrder
import SourceSurvey.Proofs.Walks

/-! The descriptors of a tree. Those found below a root are the files with the name of a descriptor
that lie below no ignored directory, where the root itself does not count; they are listed in the
order of their paths, each once. Besides, discovery tells of the directories that it could not open
or read to their end. -/

namespace SourceSurvey.Scan

open Text

variable {disk : Disk} {root path name : Text} {here : Location} {ecosystem : Ecosystem}
  {ecosystems : List Ecosystem} {d : FoundDescriptor}

/-- A file name is that of a descriptor in one ecosystem at most. -/
theorem isDescriptor_unique {e f : Ecosystem} (he : e.isDescriptor name = true)
    (hf : f.isDescriptor name = true) : e = f := by
  have apart (h : Ecosystem.maven.isDescriptor name = true) :
      Ecosystem.dotnet.isDescriptor name = false := by
    rw [of_decide_eq_true h]
    decide
  cases e <;> cases f
  · rfl
  · exact absurd he (by simp [apart hf])
  · exact absurd hf (by simp [apart he])
  · rfl

theorem mem_descriptorsAt : d ∈ descriptorsAt ecosystems path ↔ d.path = path ∧
    d.ecosystem ∈ ecosystems ∧
      d.ecosystem.isDescriptor ((Path.fileName? path).getD path) = true := by
  obtain ⟨at_, e⟩ := d
  simp only [descriptorsAt, List.mem_map, List.mem_filter, FoundDescriptor.mk.injEq]
  constructor
  · rintro ⟨f, hf, rfl, rfl⟩
    exact ⟨rfl, hf⟩
  · rintro ⟨rfl, hf⟩
    exact ⟨e, hf, rfl, rfl⟩

theorem mem_discover : d ∈ (discover disk root ecosystems).found ↔
    d.path ∈ (listFiles disk (avoids ignoredDirs) root).found ∧ d.ecosystem ∈ ecosystems ∧
      d.ecosystem.isDescriptor ((Path.fileName? d.path).getD d.path) = true := by
  rw [discover, mem_sortedDistinct, List.mem_flatMap]
  constructor
  · rintro ⟨file, found, told⟩
    obtain ⟨rfl, asked⟩ := mem_descriptorsAt.mp told
    exact ⟨found, asked⟩
  · rintro ⟨found, asked⟩
    exact ⟨d.path, found, mem_descriptorsAt.mpr ⟨rfl, asked⟩⟩

/-- The descriptors below a directory are files below it. -/
theorem mem_discover_iff (ht : disk.root.isTree = true) (h : disk.locate root = .ok here)
    (hd : here.entry.isDir = true) : d ∈ (discover disk root ecosystems).found ↔
      d.ecosystem ∈ ecosystems ∧ ∃ dirs name file, d.path = Path.below root (dirs ++ [name]) ∧
        here.entry.at? (dirs ++ [name]) = some file ∧ file.isFile = true ∧
          d.ecosystem.isDescriptor name = true ∧ ∀ dir ∈ dirs, dir ∉ ignoredDirs := by
  have last {dirs : List Text} {name : Text} {file : Entry}
      (hs : here.entry.at? (dirs ++ [name]) = some file) :
      Path.fileName? (Path.below root (dirs ++ [name])) = some name := by
    have segment : Path.isSegment name = true :=
      Entry.isSegment_of_at? ((Disk.stands_of_locate h).isTree ht) hs name (by simp)
    rw [Path.below_concat, Path.fileName?_join segment]
  rw [mem_discover, mem_listFiles ht h hd]
  constructor
  · rintro ⟨⟨names, file, standing, isFile, path, free⟩, asked, told⟩
    rcases List.eq_nil_or_concat names with rfl | ⟨dirs, name, rfl⟩
    · -- the root itself is no file
      obtain rfl := Option.some.inj standing
      exact absurd (Entry.isDir_of_isFile isFile) (by simp [hd])
    · rw [List.concat_eq_append] at *
      rw [path, last standing, Option.getD_some] at told
      rw [List.dropLast_concat] at free
      exact ⟨asked, dirs, name, file, path, standing, isFile, told, free⟩
  · rintro ⟨asked, dirs, name, file, path, standing, isFile, told, free⟩
    refine ⟨⟨_, file, standing, isFile, path, by rwa [List.dropLast_concat]⟩, asked, ?_⟩
    rwa [path, last standing, Option.getD_some]

/-- Paths of descriptors with the same components are one path. -/
theorem path_eq_of_mem_discover (ht : disk.root.isTree = true) {a b : FoundDescriptor}
    (ha : a ∈ (discover disk root ecosystems).found)
    (hb : b ∈ (discover disk root ecosystems).found)
    (hc : Path.components a.path = Path.components b.path) : a.path = b.path := by
  obtain ⟨names, segments, path⟩ := exists_names_of_mem_listFiles ht (mem_discover.mp ha).1
  obtain ⟨names', segments', path'⟩ := exists_names_of_mem_listFiles ht (mem_discover.mp hb).1
  rw [path, path'] at hc ⊢
  rw [Path.below_injective segments segments' hc]

/-- The descriptors come in the order of their paths, and no path comes twice. -/
theorem pairwise_discover (root : Text) (ecosystems : List Ecosystem)
    (ht : disk.root.isTree = true) :
    (discover disk root ecosystems).found.Pairwise fun a b => Path.precedes a.path b.path := by
  have strict := pairwise_sortedDistinct
    (l := (listFiles disk (avoids ignoredDirs) root).found.flatMap (descriptorsAt ecosystems))
    FoundDescriptor.le_total FoundDescriptor.le_trans fun a ha b hb hab hba =>
      FoundDescriptor.eq_of_le hab hba
        (path_eq_of_mem_discover ht (mem_sortedDistinct.mpr ha) (mem_sortedDistinct.mpr hb))
  refine List.Pairwise.imp_of_mem ?_ strict
  intro a b ha hb hab
  refine ((FoundDescriptor.le_iff a b).mp hab.1).resolve_right fun same => hab.2 ?_
  -- one path is that of descriptors of one ecosystem
  have da := (mem_discover.mp ha).2.2
  have db := (mem_discover.mp hb).2.2
  have path := path_eq_of_mem_discover ht ha hb same.1
  rw [path] at da
  obtain ⟨p, e⟩ := a
  obtain ⟨q, f⟩ := b
  exact congrArg₂ FoundDescriptor.mk path (isDescriptor_unique da db)

end SourceSurvey.Scan
