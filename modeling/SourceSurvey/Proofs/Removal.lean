import SourceSurvey.Proofs.Walks

/-! A tree without one of its files. What stood at the names of the file is gone, and nothing else
changes: the directories on the way stay, every other path leads where it led as long as there are
no links, and a walk finds what it found, less the file, and cannot visit what it could not. -/

namespace SourceSurvey

open Text

/-! ### Entries -/

/-- An entry of a directory after what it holds under one name is changed or taken away. -/
def changedUnder (name : Text) (change : Entry → Option Entry) (child : Text × Entry) :
    Option (Text × Entry) :=
  if child.1 = name then (change child.2).map fun entry => (name, entry) else some child

section

variable {name : Text} {change : Entry → Option Entry} {child changed : Text × Entry}
  {entries : List (Text × Entry)}

theorem changedUnder_self (entry : Entry) :
    changedUnder name change (name, entry) = (change entry).map fun entry => (name, entry) :=
  if_pos rfl

theorem changedUnder_of_ne (h : child.1 ≠ name) : changedUnder name change child = some child :=
  if_neg h

theorem name_changedUnder (h : changedUnder name change child = some changed) :
    changed.1 = child.1 := by
  rw [changedUnder] at h
  split at h
  · next same =>
    obtain ⟨entry, -, rfl⟩ := Option.map_eq_some_iff.mp h
    exact same.symm
  · rw [Option.some.inj h]

theorem mem_changedUnder_self {entry : Entry} :
    (name, entry) ∈ entries.filterMap (changedUnder name change) ↔
    ∃ held, (name, held) ∈ entries ∧ change held = some entry := by
  rw [List.mem_filterMap]
  constructor
  · rintro ⟨⟨n, held⟩, hm, hc⟩
    obtain rfl : name = n := name_changedUnder hc
    rw [changedUnder_self, Option.map_eq_some_iff] at hc
    obtain ⟨rest, hr, same⟩ := hc
    exact ⟨held, hm, (Prod.mk.inj same).2 ▸ hr⟩
  · rintro ⟨held, hm, hc⟩
    exact ⟨(name, held), hm, by rw [changedUnder_self, hc, Option.map_some]⟩

theorem mem_changedUnder_of_ne {n : Text} {entry : Entry} (hn : n ≠ name) :
    (n, entry) ∈ entries.filterMap (changedUnder name change) ↔ (n, entry) ∈ entries := by
  rw [List.mem_filterMap]
  constructor
  · rintro ⟨⟨m, held⟩, hm, hc⟩
    obtain rfl : n = m := name_changedUnder hc
    rw [changedUnder_of_ne hn] at hc
    exact Option.some.inj hc ▸ hm
  · exact fun hm => ⟨(n, entry), hm, changedUnder_of_ne hn⟩

/-- The names of a directory are those it had, less one at most. -/
theorem nodup_changedUnder (h : (entries.map (·.1)).Nodup) :
    ((entries.filterMap (changedUnder name change)).map (·.1)).Nodup := by
  rw [List.nodup_iff_pairwise_ne, List.pairwise_map] at h ⊢
  refine List.pairwise_filterMap.mpr (h.imp fun apart b hb c hc => ?_)
  rwa [name_changedUnder hb, name_changedUnder hc]

end

namespace Entry

/-- A directory after what it holds is changed; anything else stays. -/
def mapEntries (change : List (Text × Entry) → List (Text × Entry)) : Entry → Entry
  | dir entries => dir (change entries)
  | torn entries fault => torn (change entries) fault
  | e => e

/-- What is left of an entry without what stands at some names below it, if anything. -/
def without? : List Text → Entry → Option Entry
  | [], _ => none
  | name :: names, e =>
    some (e.mapEntries (List.filterMap (changedUnder name (without? names))))

variable {e left child file : Entry} {name : Text} {names rest gone : List Text}
  {change : List (Text × Entry) → List (Text × Entry)}

theorem entries_mapEntries (h : change [] = []) :
    (e.mapEntries change).entries = change e.entries := by
  cases e <;> simp [mapEntries, entries, h]

@[simp] theorem met_mapEntries (path : Text) : (e.mapEntries change).met path = e.met path := by
  cases e <;> rfl

theorem bare_mapEntries : (e.mapEntries change).bare = e.bare := by
  cases e <;> rfl

theorem without?_eq_none (h : e.without? gone = none) : gone = [] := by
  cases gone with
  | nil => rfl
  | cons name gone => exact absurd h (by simp [without?])

theorem entries_without? (h : e.without? (name :: gone) = some left) :
    left.entries = e.entries.filterMap (changedUnder name (without? gone)) :=
  Option.some.inj h ▸ entries_mapEntries rfl

theorem bare_without? (h : e.without? gone = some left) : left.bare = e.bare := by
  cases gone with
  | nil => exact absurd h (by simp [without?])
  | cons name gone => exact Option.some.inj h ▸ bare_mapEntries

theorem isTree_without? (ht : e.isTree = true) (h : e.without? gone = some left) :
    left.isTree = true := by
  induction gone generalizing e left with
  | nil => exact absurd h (by simp [without?])
  | cons name gone ih =>
    obtain ⟨sound, distinct⟩ := isTree_iff.mp ht
    rw [isTree_iff, entries_without? h]
    refine ⟨fun child hc => ?_, nodup_changedUnder distinct⟩
    obtain ⟨⟨n, entry⟩, held, kept⟩ := List.mem_filterMap.mp hc
    obtain ⟨segment, tree⟩ := sound _ held
    refine ⟨name_changedUnder kept ▸ segment, ?_⟩
    by_cases hn : n = name
    · subst hn
      rw [changedUnder_self, Option.map_eq_some_iff] at kept
      obtain ⟨rest, hr, rfl⟩ := kept
      exact ih tree hr
    · rw [changedUnder_of_ne hn] at kept
      exact Option.some.inj kept ▸ tree

/-- What is held under the name that changes is what is left of it. -/
theorem entry?_without?_self (ht : e.isTree = true) (h : e.without? (name :: gone) = some left) :
    left.entry? name = (e.entry? name).bind (without? gone) := by
  ext entry
  rw [entry?_eq_some_iff (isTree_without? ht h), entries_without? h, mem_changedUnder_self,
    Option.bind_eq_some_iff]
  simp only [entry?_eq_some_iff ht]

theorem entry?_without?_of_ne (ht : e.isTree = true) (h : e.without? (name :: gone) = some left)
    {n : Text} (hn : n ≠ name) : left.entry? n = e.entry? n := by
  ext entry
  rw [entry?_eq_some_iff (isTree_without? ht h), entries_without? h, mem_changedUnder_of_ne hn,
    entry?_eq_some_iff ht]

/-- Nothing stands any more at the names of what was taken away nor below it; all else is seen as
before. -/
theorem sight_without? (ht : e.isTree = true) (h : e.without? gone = some left)
    (names : List Text) : left.sight names = if gone <+: names then none else e.sight names := by
  induction gone generalizing e left names with
  | nil => exact absurd h (by simp [without?])
  | cons name gone ih =>
    cases names with
    | nil => rw [if_neg (by simp), sight_nil, sight_nil, bare_without? h]
    | cons n names =>
      simp only [List.cons_prefix_cons]
      by_cases hn : name = n
      · subst hn
        rw [sight_cons, sight_cons, entry?_without?_self ht h]
        cases hc : e.entry? name with
        | none => simp
        | some child =>
          rw [Option.bind_some, Option.bind_some]
          cases hl : child.without? gone with
          | none =>
            obtain rfl := without?_eq_none hl
            simp
          | some rest =>
            rw [Option.bind_some, ih (isTree_of_entry?_eq_some ht hc).2 hl]
            simp
      · rw [if_neg fun both => hn both.1, sight_cons, sight_cons,
          entry?_without?_of_ne ht h (Ne.symm hn)]

/-- On the way to what was taken away stands what is left. -/
theorem at?_without?_of_append (ht : e.isTree = true)
    (h : e.without? (names ++ rest) = some left) (hr : rest ≠ []) :
    left.at? names = (e.at? names).bind (without? rest) := by
  induction names generalizing e left with
  | nil => exact h.symm
  | cons name names ih =>
    rw [List.cons_append] at h
    rw [at?_cons, at?_cons, entry?_without?_self ht h]
    cases hc : e.entry? name with
    | none => rfl
    | some child =>
      obtain ⟨left', hl⟩ : ∃ left', child.without? (names ++ rest) = some left' :=
        Option.ne_none_iff_exists'.mp fun none => hr (List.append_eq_nil_iff.mp
          (without?_eq_none none)).2
      rw [Option.bind_some, Option.bind_some, hl]
      exact ih (isTree_of_entry?_eq_some ht hc).2 hl

/-- What stands apart from the way to what was taken away stays. -/
theorem at?_without?_of_apart (ht : e.isTree = true) (h : e.without? gone = some left)
    (hg : ¬gone <+: names) (hn : ¬names <+: gone) : left.at? names = e.at? names := by
  induction names generalizing e left gone with
  | nil => exact absurd (List.nil_prefix) hn
  | cons n names ih =>
    cases gone with
    | nil => exact absurd (List.nil_prefix) hg
    | cons name gone =>
      rw [List.cons_prefix_cons, not_and] at hg hn
      rw [at?_cons, at?_cons]
      by_cases same : n = name
      · subst same
        rw [entry?_without?_self ht h]
        cases hc : e.entry? n with
        | none => rfl
        | some child =>
          obtain ⟨left', hl⟩ : ∃ left', child.without? gone = some left' :=
            Option.ne_none_iff_exists'.mp fun none => by
              rw [without?_eq_none none] at hg
              exact hg rfl List.nil_prefix
          rw [Option.bind_some, Option.bind_some, hl]
          exact ih (isTree_of_entry?_eq_some ht hc).2 hl (hg rfl) (hn rfl)
      · rw [entry?_without?_of_ne ht h same]

/-! ### What cannot be visited -/

theorem faults_append (met more : List (Except WalkFault Text)) :
    faults (met ++ more) = faults met ++ faults more := List.filterMap_append

theorem faults_walk_of_isFile {enters : Text → Bool} {dir : Text} (hf : e.isFile = true) :
    faults (e.walk enters dir) = [] := by
  cases e <;> first | rfl | exact absurd hf (by simp [isFile])

/-- A walk over what is left without a file cannot visit what it could not visit. -/
theorem faults_walk_without? {enters : Text → Bool} {dir : Text} (ht : e.isTree = true)
    (hs : e.at? gone = some file) (hf : file.isFile = true) (h : e.without? gone = some left) :
    faults (left.walk enters dir) = faults (e.walk enters dir) := by
  induction gone generalizing e left dir with
  | nil => exact absurd h (by simp [without?])
  | cons name gone ih =>
    have held : ∀ child ∈ e.entries, child.1 = name →
        child.2.isTree = true ∧ child.2.at? gone = some file := by
      rintro ⟨n, child⟩ hc rfl
      have under := (entry?_eq_some_iff ht).mpr hc
      rw [at?_cons, under, Option.bind_some] at hs
      exact ⟨(isTree_of_entry?_eq_some ht under).2, hs⟩
    have same : left.met dir = e.met dir := Option.some.inj h ▸ met_mapEntries dir
    rw [walk_eq, walk_eq, faults_append, faults_append, same, entries_without? h]
    congr 1
    generalize e.entries = entries at held
    induction entries with
    | nil => rfl
    | cons first rest ihe =>
      obtain ⟨n, child⟩ := first
      have kept := ihe fun c hc => held c (List.mem_cons_of_mem _ hc)
      by_cases hn : n = name
      · subst hn
        obtain ⟨tree, below⟩ := held (n, child) (List.mem_cons_self) rfl
        cases hl : child.without? gone with
        | none =>
          -- the file itself stands here
          obtain rfl := without?_eq_none hl
          obtain rfl := Option.some.inj below
          rw [List.filterMap_cons_none (by rw [changedUnder_self, hl, Option.map_none]), kept,
            walkIn, faults_append, isDir_of_isFile hf]
          simp only [Bool.false_and, Bool.false_eq_true, if_false, faults_walk_of_isFile hf,
            List.nil_append]
        | some left' =>
          have direct : left'.isDir = child.isDir := by
            rw [← isDir_bare, bare_without? hl, isDir_bare]
          rw [List.filterMap_cons_some (by rw [changedUnder_self, hl, Option.map_some]), walkIn,
            walkIn, faults_append, faults_append, kept, direct]
          split
          · rfl
          · rw [ih tree below hl]
      · rw [List.filterMap_cons_some (changedUnder_of_ne (show (n, child).1 ≠ name from hn)),
          walkIn, walkIn, faults_append, faults_append, kept]

end Entry

/-! ### Paths -/

/-- A tree without links beside the same tree without the file at some names. -/
structure Disk.Lacks (disk other : Disk) (gone : List Text) : Prop where
  tree : disk.root.isTree = true
  linkless : disk.root.Linkless
  current : other.current = disk.current
  file : ∃ file, disk.root.at? gone = some file ∧ file.isFile = true
  left : disk.root.without? gone = some other.root

/-- The tree without what stands at the normal form of a path; the directories on the way stay. -/
def Disk.without (disk : Disk) (path : Text) : Disk :=
  { disk with root := (disk.root.without? (Path.names path)).getD (.dir []) }

namespace Disk.Lacks

variable {disk other : Disk} {gone names led : List Text} {path segment dir : Text}
  {file holder : Entry}

theorem of_without (ht : disk.root.isTree = true) (hl : disk.root.Linkless)
    (hd : disk.root.isDir = true) (hs : disk.root.at? (Path.names path) = some file)
    (hf : file.isFile = true) : disk.Lacks (disk.without path) (Path.names path) := by
  have inside : Path.names path ≠ [] := by
    intro he
    rw [he] at hs
    obtain rfl := Option.some.inj hs
    exact absurd (Entry.isDir_of_isFile hf) (by simp [hd])
  obtain ⟨left, hw⟩ : ∃ left, disk.root.without? (Path.names path) = some left :=
    Option.ne_none_iff_exists'.mp fun none => inside (Entry.without?_eq_none none)
  exact ⟨ht, hl, rfl, ⟨file, hs, hf⟩, by rw [without, hw, Option.getD_some]⟩

section

variable (h : disk.Lacks other gone)

include h

theorem other_tree : other.root.isTree = true := Entry.isTree_without? h.tree h.left

/-- What was taken away is not seen, and all else is. -/
theorem sight (names : List Text) :
    other.root.sight names = if names = gone then none else disk.root.sight names := by
  rw [Entry.sight_without? h.tree h.left]
  by_cases hp : gone <+: names
  · obtain ⟨rest, rfl⟩ := hp
    rw [if_pos (List.prefix_append _ _)]
    by_cases hr : rest = []
    · rw [if_pos (by rw [hr, List.append_nil])]
    · -- nothing stood below the file
      rw [if_neg (by simpa using hr)]
      obtain ⟨file, standing, isFile⟩ := h.file
      cases below : disk.root.sight (gone ++ rest) with
      | none => rfl
      | some seen =>
        obtain ⟨child, found, -⟩ := Entry.sight_eq_some below
        obtain ⟨holder, standing', directory, -⟩ := Entry.exists_holder found hr
        obtain rfl := Option.some.inj (standing.symm.trans standing')
        exact absurd (Entry.isDir_of_isFile isFile) (by simp [directory])
  · rw [if_neg hp, if_neg]
    rintro rfl
    exact hp (List.prefix_refl _)

theorem sight_of_ne (hn : names ≠ gone) : other.root.sight names = disk.root.sight names := by
  rw [h.sight, if_neg hn]

theorem other_linkless : other.root.Linkless := by
  intro names child standing
  have seen := Entry.sight_of_at? standing
  by_cases hn : names = gone
  · rw [h.sight, if_pos hn] at seen
    exact absurd seen (by simp)
  · rw [h.sight_of_ne hn] at seen
    obtain ⟨child', standing', same⟩ := Entry.sight_eq_some seen
    rw [← Entry.target?_bare, ← same, Entry.target?_bare, h.linkless _ _ standing']

theorem ne_of_isDir (hs : disk.root.at? names = some holder) (hd : holder.isDir = true) :
    names ≠ gone := by
  rintro rfl
  obtain ⟨file, standing, isFile⟩ := h.file
  obtain rfl := Option.some.inj (hs.symm.trans standing)
  exact absurd (Entry.isDir_of_isFile isFile) (by simp [hd])

/-- What is gone does not hold what stands. -/
theorem dropLast_ne (hs : disk.root.at? names = some holder) (hn : names ≠ gone) :
    names.dropLast ≠ gone := by
  rcases List.eq_nil_or_concat names with rfl | ⟨front, name, rfl⟩
  · exact hn
  · rw [List.concat_eq_append] at hs ⊢
    rw [List.dropLast_concat]
    obtain ⟨above, standing, directory, -⟩ := Entry.exists_holder hs (List.cons_ne_nil name [])
    exact h.ne_of_isDir standing directory

/-- One segment leads on as before, unless it leads to the file that is gone. -/
theorem stepAt_eq_ok_iff : other.root.stepAt names segment = .ok led ↔
    disk.root.stepAt names segment = .ok led ∧ led ≠ gone := by
  by_cases hn : names = gone
  · -- no segment leads on from the file, nor from nothing
    constructor
    · intro on
      obtain ⟨holder, standing, -⟩ := Entry.directory_of_stepAt on
      have seen := Entry.sight_of_at? standing
      rw [h.sight, if_pos hn] at seen
      exact absurd seen (by simp)
    · rintro ⟨on, -⟩
      obtain ⟨holder, standing, directory⟩ := Entry.directory_of_stepAt on
      exact absurd hn (h.ne_of_isDir standing directory)
  · have stays {there : List Text} (ht : there ≠ gone) :
        Except.ok (ε := DiskFault) there = .ok led ↔
        Except.ok (ε := DiskFault) there = .ok led ∧ led ≠ gone :=
      ⟨fun same => ⟨same, Except.ok.inj same ▸ ht⟩, And.left⟩
    simp only [Entry.stepAt, h.sight_of_ne hn]
    cases hs : disk.root.sight names with
    | none => simp
    | some seen =>
      obtain ⟨holder, standing, rfl⟩ := Entry.sight_eq_some hs
      dsimp only
      split
      · simp
      · split
        · exact stays hn
        · split
          · simp
          · split
            · exact stays hn
            · split
              · exact stays (h.dropLast_ne standing hn)
              · by_cases same : names ++ [segment] = gone
                · rw [h.sight, if_pos same, if_pos rfl, same]
                  split
                  · simp
                  · simp [eq_comm]
                · rw [h.sight_of_ne same]
                  split
                  · simp
                  · exact stays same

/-- Segments lead on as before, unless they lead to the file that is gone. -/
theorem foldlM_stepAt_eq_ok_iff {segments : List Text} (hn : names ≠ gone) :
    segments.foldlM other.root.stepAt names = .ok led ↔
      segments.foldlM disk.root.stepAt names = .ok led ∧ led ≠ gone := by
  induction segments generalizing names with
  | nil =>
    refine ⟨fun hl => ⟨hl, ?_⟩, And.left⟩
    exact Except.ok.inj hl ▸ hn
  | cons segment segments ih =>
    simp only [List.foldlM_cons, bind_eq_ok_iff]
    constructor
    · rintro ⟨between, one, rest⟩
      obtain ⟨one, apart⟩ := h.stepAt_eq_ok_iff.mp one
      obtain ⟨rest, last⟩ := (ih apart).mp rest
      exact ⟨⟨between, one, rest⟩, last⟩
    · rintro ⟨⟨between, one, rest⟩, last⟩
      have apart : between ≠ gone := by
        rintro rfl
        -- no segment leads on from a file
        cases segments with
        | nil => exact last (Except.ok.inj rest).symm
        | cons next segments =>
          obtain ⟨beyond, on, -⟩ :=
            bind_eq_ok_iff.mp (List.foldlM_cons (m := Except DiskFault) ▸ rest)
          obtain ⟨holder, standing, directory⟩ := Entry.directory_of_stepAt on
          exact h.ne_of_isDir standing directory rfl
      exact ⟨between, h.stepAt_eq_ok_iff.mpr ⟨one, apart⟩, (ih apart).mpr ⟨rest, last⟩⟩

/-- Paths lead where they led, except to the file that is gone. -/
theorem place_eq_ok_iff : other.place path = .ok led ↔ disk.place path = .ok led ∧ led ≠ gone := by
  by_cases hp : path = []
  · exact ⟨fun hl => absurd hp (ne_nil_of_place hl), fun hl => absurd hp (ne_nil_of_place hl.1)⟩
  · have root : [] ≠ gone := by
      rintro rfl
      exact absurd h.left (by simp [Entry.without?])
    rw [place_eq h.linkless hp, place_eq h.other_linkless hp, h.current]
    exact h.foldlM_stepAt_eq_ok_iff root

/-- What is seen of an entry stays where it is, unless the entry is the file that is gone. -/
theorem exists_at?_iff {p : Entry → Bool} (hp : ∀ e, p e.bare = p e) :
    (∃ child, other.root.at? names = some child ∧ p child = true) ↔
      (∃ child, disk.root.at? names = some child ∧ p child = true) ∧ names ≠ gone := by
  have told (e : Entry) : (∃ child, e.at? names = some child ∧ p child = true) ↔
      (e.sight names).any p = true := by
    simp [Entry.sight, Option.any_map, Option.any_eq_true, hp]
  rw [told, told, h.sight]
  split <;> simp [*]

/-- Directories stay where they are. -/
theorem isDir_at?_iff : (∃ holder, other.root.at? names = some holder ∧ holder.isDir = true) ↔
    ∃ holder, disk.root.at? names = some holder ∧ holder.isDir = true := by
  rw [h.exists_at?_iff Entry.isDir_bare]
  refine and_iff_left_of_imp ?_
  rintro ⟨holder, standing, directory⟩
  exact h.ne_of_isDir standing directory

theorem isDir (path : Text) : other.isDir path = disk.isDir path := by
  rw [Bool.eq_iff_iff, isDir_iff, isDir_iff]
  refine exists_congr fun names => ?_
  simp only [exists_and_left, h.place_eq_ok_iff, h.isDir_at?_iff, and_assoc]
  refine and_congr_right fun _ => and_iff_right_of_imp ?_
  rintro ⟨holder, standing, directory⟩
  exact h.ne_of_isDir standing directory

/-- A directory that a path leads to is there, perhaps without the file in it. -/
theorem exists_locate {here : Location} (hl : disk.locate path = .ok here)
    (hd : here.entry.isDir = true) : ∃ there, other.locate path = .ok there ∧
      there.names = here.names ∧ there.entry.isDir = true := by
  have standing := (stands_of_locate hl).at?
  have place := h.place_eq_ok_iff.mpr ⟨place_of_locate hl, h.ne_of_isDir standing hd⟩
  obtain ⟨there, located, names, standing'⟩ := Disk.exists_locate place
  obtain ⟨holder, held, directory⟩ := h.isDir_at?_iff.mpr ⟨_, standing, hd⟩
  exact ⟨there, located, names, Option.some.inj (standing'.symm.trans held) ▸ directory⟩

theorem read (hp : disk.place path = .ok led) (hl : led ≠ gone) :
    other.read path = disk.read path := by
  rw [read_eq, read_eq, hp, h.place_eq_ok_iff.mpr ⟨hp, hl⟩]
  simp only [bind, Except.bind, h.sight_of_ne hl]

/-! ### Walks -/

/-- A walk finds what it found, less the file that is gone. -/
theorem mem_listFiles_iff {barred : List Text} {here : Location} (hl : disk.locate dir = .ok here)
    (hd : here.entry.isDir = true) : path ∈ (Scan.listFiles other (avoids barred) dir).found ↔
      path ∈ (Scan.listFiles disk (avoids barred) dir).found ∧ disk.place path ≠ .ok gone := by
  obtain ⟨there, located, names, directory⟩ := h.exists_locate hl hd
  have stands := stands_of_locate hl
  have file_iff (rest : List Text) :
      (∃ entry, there.entry.at? rest = some entry ∧ entry.isFile = true) ↔
        (∃ entry, here.entry.at? rest = some entry ∧ entry.isFile = true) ∧
          here.names ++ rest ≠ gone := by
    rw [← (stands_of_locate located).at?_append, ← stands.at?_append, names]
    exact h.exists_at?_iff Entry.isFile_bare
  have led_on {rest : List Text} {entry : Entry} (hs : here.entry.at? rest = some entry)
      (hf : entry.isFile = true) : disk.place (Path.below dir rest) = .ok (here.names ++ rest) :=
    place_below (place_of_locate hl) (Entry.isSegment_of_at? (stands.isTree h.tree) hs)
      ((stands.at?_append rest).trans hs) (Entry.target?_of_isFile hf)
  rw [Scan.mem_listFiles h.other_tree located directory, Scan.mem_listFiles h.tree hl hd]
  constructor
  · rintro ⟨rest, entry, standing, isFile, rfl, free⟩
    obtain ⟨⟨entry, standing, isFile⟩, apart⟩ := (file_iff rest).mp ⟨entry, standing, isFile⟩
    refine ⟨⟨rest, entry, standing, isFile, rfl, free⟩, fun same => apart ?_⟩
    exact Except.ok.inj ((led_on standing isFile).symm.trans same)
  · rintro ⟨⟨rest, entry, standing, isFile, rfl, free⟩, apart⟩
    obtain ⟨entry', standing', isFile'⟩ := (file_iff rest).mpr ⟨⟨entry, standing, isFile⟩,
      fun same => apart (same ▸ led_on standing isFile)⟩
    exact ⟨rest, entry', standing', isFile', rfl, free⟩

/-- A walk cannot visit what it could not visit. -/
theorem diagnostics_listFiles {enters : Text → Bool} {here : Location}
    (hl : disk.locate dir = .ok here) (hd : here.entry.isDir = true) :
    (Scan.listFiles other enters dir).diagnostics =
      (Scan.listFiles disk enters dir).diagnostics := by
  obtain ⟨there, located, names, directory⟩ := h.exists_locate hl hd
  have standing := (stands_of_locate hl).at?
  have standing' := (stands_of_locate located).at?
  rw [names] at standing'
  have same : Entry.faults (there.entry.walk enters dir) =
      Entry.faults (here.entry.walk enters dir) := by
    obtain ⟨file, gone_file, isFile⟩ := h.file
    by_cases way : here.names <+: gone
    · obtain ⟨rest, rfl⟩ := way
      have hr : rest ≠ [] := by
        rintro rfl
        exact h.ne_of_isDir standing hd (List.append_nil _).symm
      rw [Entry.at?_without?_of_append h.tree h.left hr, standing, Option.bind_some] at standing'
      rw [Entry.at?_append, standing, Option.bind_some] at gone_file
      exact Entry.faults_walk_without? (Entry.isTree_at? h.tree standing) gone_file isFile standing'
    · have apart : ¬gone <+: here.names := by
        rintro ⟨rest, same⟩
        rw [← same] at standing
        by_cases hr : rest = []
        · rw [hr, List.append_nil] at same
          exact way (same ▸ List.prefix_refl _)
        · obtain ⟨holder, held, directory, -⟩ := Entry.exists_holder standing hr
          exact h.ne_of_isDir held directory rfl
      rw [Entry.at?_without?_of_apart h.tree h.left apart way, standing] at standing'
      rw [Option.some.inj standing']
  rw [Scan.diagnostics_listFiles, Scan.diagnostics_listFiles, walk_of_isDir hl hd,
    walk_of_isDir located directory, same]

end

end Disk.Lacks

end SourceSurvey
