import SourceSurvey.Proofs.Locations
import SourceSurvey.Scan.Survey

/-! What a walk finds. A walk that enters no directory of certain names gives the files of a tree
that have none of these names on the way from where the walk begins; neither the name of the
directory where it begins nor the name of a file counts. With them it gives a fault for each
directory on its ways that cannot be opened or whose reading breaks off, and nothing else. -/

namespace SourceSurvey

open Text

/-- Whether the last name of a directory is none of some names. -/
def avoids (barred : List Text) (dir : Text) : Bool := !(Path.fileName? dir).any barred.contains

variable {barred names led : List Text} {dir name path : Text} {enters : Text → Bool}

theorem avoids_join (hn : Path.isSegment name = true) :
    avoids barred (Path.join dir name) = true ↔ name ∉ barred := by
  simp [avoids, Path.fileName?_join hn]

/-! ### Entries -/

namespace Entry

/-- What cannot be visited of a directory at a path. -/
def walkFault? (path : Text) : Entry → Option WalkFault
  | .lockedDir fault => some ⟨some path, fault⟩
  | .torn _ fault => some ⟨none, fault⟩
  | .file _ | .dir _ | .link _ | .lockedFile _ => none

/-- What a walk meets in an entry at a path beside what it holds. -/
def met (path : Text) (e : Entry) : List (Except WalkFault Text) :=
  if e.isFile then [.ok path] else (e.walkFault? path).toList.map .error

/-- The faults that a walk meets. -/
def faults (met : List (Except WalkFault Text)) : List WalkFault :=
  met.filterMap fun
    | .ok _ => none
    | .error fault => some fault

/-- The directories on the way to an entry at some names, the entry included if it is one. -/
def dirsOn (names : List Text) (e : Entry) : List Text :=
  if e.isDir then names else names.dropLast

variable {e child : Entry} {met : Except WalkFault Text}

theorem ok_mem_met : .ok path ∈ e.met dir ↔ e.isFile = true ∧ path = dir := by
  rw [Entry.met]
  split <;> simp [*]

theorem walkIn_eq_flatMap (enters : Text → Bool) (dir : Text) (entries : List (Text × Entry)) :
    walkIn enters dir entries = entries.flatMap fun child =>
      if child.2.isDir && !enters (Path.join dir child.1) then []
      else child.2.walk enters (Path.join dir child.1) := by
  induction entries with
  | nil => rfl
  | cons first rest ih => rw [walkIn, ih, List.flatMap_cons]

/-- A walk visits what an entry holds and then tells of the entry itself. -/
theorem walk_eq (enters : Text → Bool) (dir : Text) (e : Entry) :
    e.walk enters dir = walkIn enters dir e.entries ++ e.met dir := by
  cases e <;> simp [walk, walkIn, Entry.met, isFile, walkFault?, entries]

theorem mem_walkIn {entries : List (Text × Entry)} :
    met ∈ walkIn enters dir entries ↔ ∃ child ∈ entries,
      (child.2.isDir = true → enters (Path.join dir child.1) = true) ∧
        met ∈ child.2.walk enters (Path.join dir child.1) := by
  rw [walkIn_eq_flatMap, List.mem_flatMap]
  refine exists_congr fun child => and_congr_right fun _ => ?_
  cases child.2.isDir <;> cases enters (Path.join dir child.1) <;> simp

/-- One name more in front of the directories on the way is that of a directory, unless it is the
last one. -/
theorem forall_dirsOn_cons {last : Entry} (h : child.at? names = some last) :
    (∀ n ∈ last.dirsOn (name :: names), n ∉ barred) ↔
      (child.isDir = true → name ∉ barred) ∧ ∀ n ∈ last.dirsOn names, n ∉ barred := by
  cases names with
  | nil =>
    obtain rfl := Option.some.inj h
    cases hd : child.isDir <;> simp [dirsOn, hd]
  | cons n names =>
    obtain ⟨holder, standing, directory, -⟩ :=
      exists_holder (show child.at? ([] ++ n :: names) = some last from h)
        (List.cons_ne_nil n names)
    obtain rfl := Option.some.inj standing
    have front : last.dirsOn (name :: n :: names) = name :: last.dirsOn (n :: names) := by
      cases hd : last.isDir <;> simp [dirsOn, hd]
    rw [front, List.forall_mem_cons, forall_prop_of_true directory]

/-- A walk meets what stands behind names of which no directory has a barred one. -/
theorem mem_walk (ht : e.isTree = true) : met ∈ e.walk (avoids barred) dir ↔
    ∃ names child, e.at? names = some child ∧ met ∈ child.met (Path.below dir names) ∧
      ∀ n ∈ child.dirsOn names, n ∉ barred := by
  induction e using Entry.inductionOn generalizing dir with
  | holder e ih =>
    have sound := (isTree_iff.mp ht).1
    rw [walk_eq, List.mem_append, mem_walkIn]
    constructor
    · rintro (⟨⟨name, child⟩, held, entered, found⟩ | here)
      · obtain ⟨segment, tree⟩ := sound _ held
        obtain ⟨names, last, below, here, free⟩ := (ih _ held tree).mp found
        have under := (entry?_eq_some_iff ht).mpr held
        have first (directory : child.isDir = true) : name ∉ barred :=
          (avoids_join segment).mp (entered directory)
        exact ⟨name :: names, last, by rw [at?_cons, under, Option.bind_some, below], here,
          (forall_dirsOn_cons below).mpr ⟨first, free⟩⟩
      · exact ⟨[], e, rfl, here, by simp [dirsOn]⟩
    · rintro ⟨names, last, below, here, free⟩
      cases names with
      | nil => exact .inr (Option.some.inj below ▸ here)
      | cons name names =>
        obtain ⟨child, under, behind⟩ := Option.bind_eq_some_iff.mp below
        have held := mem_of_entry?_eq_some under
        obtain ⟨segment, tree⟩ := sound _ held
        obtain ⟨first, free⟩ := (forall_dirsOn_cons behind).mp free
        exact .inl ⟨(name, child), held,
          fun directory => (avoids_join segment).mpr (first directory),
          (ih _ held tree).mpr ⟨names, last, behind, here, free⟩⟩

end Entry

/-! ### Trees -/

namespace Disk

variable {disk : Disk} {here : Location}

/-- A walk begins at a place of the tree, or it gives at most a fault of the path itself. -/
theorem walk_cases (disk : Disk) (enters : Text → Bool) (path : Text) :
    (∃ fault, disk.walk enters path = [.error ⟨some path, fault⟩]) ∨ disk.walk enters path = [] ∨
      ∃ here : Location, here.Stands disk.root ∧
        disk.walk enters path = here.entry.walk enters path := by
  rw [walk]
  split
  · exact .inl ⟨_, rfl⟩
  · next here looked =>
    split
    · exact .inr (.inr ⟨here, stands_of_follow looked, rfl⟩)
    · split
      · exact .inl ⟨_, rfl⟩
      · next there located =>
        split
        · exact .inr (.inr ⟨there, stands_of_locate located, rfl⟩)
        · exact .inr (.inl rfl)

/-- A walk enters the directory to which its path leads, also over a link. -/
theorem walk_of_isDir (h : disk.locate path = .ok here) (hd : here.entry.isDir = true) :
    disk.walk enters path = here.entry.walk enters path := by
  obtain ⟨next, looked, bare⟩ := look_of_locate h
  rw [walk, looked]
  simp only
  split
  · next unlinked => rw [bare (Option.isNone_iff_eq_none.mp unlinked)]
  · rw [h]
    simp only [hd, if_true]

end Disk

namespace Scan

variable {disk : Disk} {here : Location}

theorem mem_found_listFiles : path ∈ (listFiles disk enters dir).found ↔
    .ok path ∈ disk.walk enters dir := by
  simp only [listFiles, List.mem_filterMap]
  constructor
  · rintro ⟨met, hm, told⟩
    cases met with
    | ok file => exact Option.some.inj told ▸ hm
    | error fault => exact absurd told (by simp)
  · exact fun hm => ⟨_, hm, rfl⟩

theorem diagnostics_listFiles (disk : Disk) (enters : Text → Bool) (dir : Text) :
    (listFiles disk enters dir).diagnostics =
      (Entry.faults (disk.walk enters dir)).map (unvisited dir) := by
  simp only [listFiles, Entry.faults, List.map_filterMap]
  refine List.filterMap_congr fun met _ => ?_
  cases met <;> rfl

theorem mem_diagnostics_listFiles {g : Diagnostic} : g ∈ (listFiles disk enters dir).diagnostics ↔
    ∃ fault, .error fault ∈ disk.walk enters dir ∧ g = unvisited dir fault := by
  simp only [listFiles, List.mem_filterMap]
  constructor
  · rintro ⟨met, hm, told⟩
    cases met with
    | ok file => exact absurd told (by simp)
    | error fault => exact ⟨fault, hm, (Option.some.inj told).symm⟩
  · rintro ⟨fault, hm, rfl⟩
    exact ⟨_, hm, rfl⟩

/-- The files that are listed below a directory. -/
theorem mem_listFiles (ht : disk.root.isTree = true) (h : disk.locate dir = .ok here)
    (hd : here.entry.isDir = true) :
    path ∈ (listFiles disk (avoids barred) dir).found ↔ ∃ names entry,
      here.entry.at? names = some entry ∧ entry.isFile = true ∧ path = Path.below dir names ∧
        ∀ n ∈ names.dropLast, n ∉ barred := by
  have tree := (Disk.stands_of_locate h).isTree ht
  rw [mem_found_listFiles, Disk.walk_of_isDir h hd, Entry.mem_walk tree]
  refine exists_congr fun names => exists_congr fun entry => and_congr_right fun _ => ?_
  rw [Entry.ok_mem_met, and_assoc]
  refine and_congr_right fun file => ?_
  rw [Entry.dirsOn, Entry.isDir_of_isFile file, if_neg Bool.false_ne_true]

/-- Whatever is listed below a path stands behind names, none of them barred but perhaps the
last. -/
theorem exists_names_of_mem_listFiles (ht : disk.root.isTree = true)
    (h : path ∈ (listFiles disk (avoids barred) dir).found) :
    ∃ names, (∀ n ∈ names, Path.isSegment n = true) ∧ path = Path.below dir names := by
  rw [mem_found_listFiles] at h
  obtain ⟨fault, only⟩ | none | ⟨here, stands, walked⟩ := disk.walk_cases (avoids barred) dir
  · exact absurd h (by simp [only])
  · exact absurd h (by simp [none])
  · have tree := stands.isTree ht
    obtain ⟨names, entry, standing, met, -⟩ := (Entry.mem_walk tree).mp (walked ▸ h)
    exact ⟨names, Entry.isSegment_of_at? tree standing, (Entry.ok_mem_met.mp met).2⟩

/-- A file that a walk finds in a directory has the name under which it stands. -/
theorem fileName?_of_mem_listFiles {front : List Text} (ht : disk.root.isTree = true)
    (h : disk.locate dir = .ok here) (hd : here.entry.isDir = true)
    (hf : path ∈ (listFiles disk (avoids barred) dir).found)
    (hn : disk.place path = .ok (front ++ [name])) : Path.fileName? path = some name := by
  obtain ⟨names, entry, standing, isFile, rfl, -⟩ := (mem_listFiles ht h hd).mp hf
  have stands := Disk.stands_of_locate h
  have segments := Entry.isSegment_of_at? (stands.isTree ht) standing
  have place := Disk.place_below (Disk.place_of_locate h) segments
    ((stands.at?_append names).trans standing) (Entry.target?_of_isFile isFile)
  have same := Except.ok.inj (hn.symm.trans place)
  rcases List.eq_nil_or_concat names with rfl | ⟨behind, last, rfl⟩
  · obtain rfl := Option.some.inj standing
    exact absurd (Entry.isDir_of_isFile isFile) (by simp [hd])
  · rw [List.concat_eq_append, ← List.append_assoc] at same
    obtain rfl : name = last := List.singleton_inj.mp (List.append_inj' same rfl).2
    rw [List.concat_eq_append, Path.below_concat, Path.fileName?_join (segments name (by simp))]

/-- A root is told by the place it leads to and by what stands there. -/
theorem resolveRoot_eq {root : Text} : resolveRoot disk root = match disk.place root with
    | .error _ => .error (.rootNotFound root)
    | .ok names =>
      if (disk.root.sight names).any Entry.isDir then .ok ('/' :: Path.joinSegments names)
      else .error (.rootNotADirectory ('/' :: Path.joinSegments names)) := by
  rw [resolveRoot]
  cases hp : disk.place root with
  | error fault => rw [Disk.locate_of_place_error hp]
  | ok names =>
    obtain ⟨here, located, rfl, standing⟩ := Disk.exists_locate hp
    simp only [located, Entry.sight_of_at? standing, Location.path_eq, Option.any_some,
      Entry.isDir_bare]

end Scan

end SourceSurvey
