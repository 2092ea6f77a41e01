import SourceSurvey.Disk.Change
import SourceSurvey.Proofs.Routes
import SourceSurvey.Proofs.Tree
import Mathlib.Data.List.Induction

/-! Where paths lead. A place of a tree is told by the names that lead to it from the root, and a
path is followed by looking only at what is seen at which names. So a path leads to the same names
in two trees that are seen alike. Where no link stands in a tree, an absolute path that leads
somewhere leads to the names of its normal form: the canonical path of what exists is then what the
text of a path alone says. -/

namespace SourceSurvey

open Text

/-! ### Steps -/

namespace Entry

/-- The names one segment further. -/
def stepAt (root : Entry) (names : List Text) (segment : Text) : Except DiskFault (List Text) :=
  match root.sight names with
  | none => .error .missing
  | some seen =>
    if !seen.isDir then .error .notDirectory
    else if segment = [] then .ok names
    else
      match seen.lock? with
      | some fault => .error fault
      | none =>
        if segment = ['.'] then .ok names
        else if segment = ['.', '.'] then .ok names.dropLast
        else if root.sight (names ++ [segment]) = none then .error .missing
        else .ok (names ++ [segment])

/-- Routes by names. -/
def naming (root : Entry) : Routing (List Text) where
  step := root.stepAt
  target? names := (root.sight names).bind target?
  start names target := if Path.isAbsolute target then [] else names

variable {root other holder child : Entry} {names led : List Text} {segment name : Text}

theorem naming_congr (h : ∀ names, other.sight names = root.sight names) :
    other.naming = root.naming := by
  have step : other.stepAt = root.stepAt := by
    funext names segment
    simp only [stepAt, h]
  simp only [naming, step, h]

theorem directory_of_stepAt (h : root.stepAt names segment = .ok led) :
    ∃ holder, root.at? names = some holder ∧ holder.isDir = true := by
  rw [stepAt] at h
  split at h
  · exact absurd h (by simp)
  · next seen hs =>
    obtain ⟨holder, standing, rfl⟩ := sight_eq_some hs
    refine ⟨holder, standing, ?_⟩
    split at h
    · exact absurd h (by simp)
    · next directory => simpa using directory

theorem stepAt_nil (h : root.at? names = some holder) (hd : holder.isDir = true) :
    root.stepAt names [] = .ok names := by
  simp [stepAt, sight_of_at? h, hd]

theorem eq_of_stepAt_nil (h : root.stepAt names [] = .ok led) : led = names := by
  obtain ⟨holder, standing, directory⟩ := directory_of_stepAt h
  exact Except.ok.inj (h.symm.trans (stepAt_nil standing directory))

theorem target?_naming (h : root.at? names = some holder) (hd : holder.isDir = true) :
    root.naming.target? names = none := by
  simp [naming, sight_of_at? h, target?_of_isDir hd]

/-- A name leads to what stands under it. -/
theorem stepAt_eq_ok_iff (hn : Path.isSegment name = true) : root.stepAt names name = .ok led ↔
    (∃ child, root.at? (names ++ [name]) = some child) ∧ led = names ++ [name] := by
  obtain ⟨silent, parent, -⟩ := Path.isSegment_iff.mp hn
  obtain ⟨some_name, dot⟩ : name ≠ [] ∧ name ≠ ['.'] := by simpa [Path.isSilent] using silent
  constructor
  · intro h
    obtain ⟨holder, standing, directory⟩ := directory_of_stepAt h
    simp only [stepAt, sight_of_at? standing, isDir_bare, directory, Bool.not_true,
      Bool.false_eq_true, if_false, some_name, dot, parent] at h
    split at h
    · exact absurd h (by simp)
    · split at h
      · exact absurd h (by simp)
      · next seen =>
        obtain ⟨child, found⟩ := Option.ne_none_iff_exists'.mp seen
        obtain ⟨child, found, -⟩ := sight_eq_some found
        exact ⟨⟨child, found⟩, (Except.ok.inj h).symm⟩
  · rintro ⟨⟨child, found⟩, rfl⟩
    obtain ⟨holder, standing, directory, unlocked, -⟩ := exists_holder found (List.cons_ne_nil _ _)
    simp [stepAt, sight_of_at? standing, sight_of_at? found, directory, unlocked, some_name, dot,
      parent]

end Entry

/-! ### Places -/

namespace Location

/-- The names that lead to a place. -/
def names (here : Location) : List Text := (here.above.map (·.1)).reverse

theorem names_child (above : List (Text × Entry)) (holder entry : Entry) (name : Text) :
    names ⟨(name, holder) :: above, entry⟩ = names ⟨above, holder⟩ ++ [name] := List.reverse_cons

theorem path_eq (here : Location) : here.path = '/' :: Path.joinSegments here.names := by
  obtain ⟨above, entry⟩ := here
  have written : above.reverse.flatMap (fun step => '/' :: step.1) =
      Path.slashed (names ⟨above, entry⟩) := by
    rw [names, ← List.map_reverse, Path.slashed, List.flatMap_map]
  cases hn : names ⟨above, entry⟩ with
  | nil =>
    have root : above = [] := by simpa [names] using hn
    subst root
    rfl
  | cons n rest =>
    have inside : above ≠ [] := by
      rintro rfl
      exact absurd hn (by simp [names])
    rw [hn] at written
    rw [Path.joinSegments_cons, path]
    split
    · next empty => exact absurd empty inside
    · exact written

/-- The places of a tree: its root, and what is held by a directory that stands in it. -/
inductive Stands (root : Entry) : Location → Prop where
  | root : Stands root ⟨[], root⟩
  | child {above holder name entry} : Stands root ⟨above, holder⟩ →
      holder.entry? name = some entry → Stands root ⟨(name, holder) :: above, entry⟩

namespace Stands

variable {root : Entry} {here next : Location} {segment : Text}

/-- The entry of a place stands at its names. -/
theorem at? (h : Stands root here) : root.at? here.names = some here.entry := by
  induction h with
  | root => rfl
  | @child above holder name entry _ held ih =>
    rw [names_child, Entry.at?_concat, ih, Option.bind_some]
    exact held

/-- What stands below a place stands in the tree behind the names of the place. -/
theorem at?_append (h : Stands root here) (names : List Text) :
    root.at? (here.names ++ names) = here.entry.at? names := by
  rw [Entry.at?_append, h.at?, Option.bind_some]

theorem isTree (h : Stands root here) (ht : root.isTree = true) : here.entry.isTree = true :=
  Entry.isTree_at? ht h.at?

theorem step (h : Stands root here) (hs : here.step segment = .ok next) : Stands root next := by
  obtain ⟨above, entry⟩ := here
  rw [Location.step] at hs
  split at hs
  · exact absurd hs (by simp)
  · split at hs
    · exact Except.ok.inj hs ▸ h
    · split at hs
      · exact absurd hs (by simp)
      · split at hs
        · exact Except.ok.inj hs ▸ h
        · split at hs
          · cases h with
            | root => exact Except.ok.inj hs ▸ .root
            | child above _ => exact Except.ok.inj hs ▸ above
          · split at hs
            · next found => exact Except.ok.inj hs ▸ .child h found
            · exact absurd hs (by simp)

/-- One segment leads to names that are told by what is seen at which names. -/
theorem names_step (h : Stands root here) (segment : Text) :
    (here.step segment).map names = root.stepAt here.names segment := by
  have seen : root.sight here.names = some here.entry.bare := Entry.sight_of_at? h.at?
  have below := h.at?_append [segment]
  obtain ⟨above, entry⟩ := here
  rw [Entry.stepAt, seen, Location.step]
  simp only [Entry.isDir_bare, Entry.lock?_bare]
  split
  · rfl
  · split
    · rfl
    · cases entry.lock? with
      | some fault => rfl
      | none =>
        dsimp only
        split
        · rfl
        · split
          · cases h with
            | root => rfl
            | child above _ =>
              rw [names_child, List.dropLast_concat]
              rfl
          · cases held : entry.entry? segment with
            | some child =>
              have found : root.at? (names ⟨above, entry⟩ ++ [segment]) = some child :=
                below.trans (Option.bind_eq_some_iff.mpr ⟨child, held, rfl⟩)
              rw [Entry.sight_of_at? found, if_neg (by simp)]
              exact congrArg Except.ok (names_child _ _ _ _)
            | none =>
              have nothing : root.at? (names ⟨above, entry⟩ ++ [segment]) = none :=
                below.trans (by rw [Entry.at?_cons, held, Option.bind_none])
              rw [Entry.sight, nothing, Option.map_none, if_pos rfl]
              rfl

end Stands

/-- The names carry the routes of a tree. -/
theorem maps_names (root : Entry) :
    (routing root).Maps root.naming names (Stands root) where
  step segment h := h.names_step segment
  kept h hs := h.step hs
  target h := by
    simp only [routing, Entry.naming, Entry.sight_of_at? h.at?, Option.bind_some,
      Entry.target?_bare]
  start target h := by
    simp only [routing, Entry.naming]
    split
    · exact ⟨.root, rfl⟩
    · exact ⟨h, rfl⟩

end Location

/-! ### Paths -/

namespace Disk

/-- The names to which a path leads; a link at its end stays if it is asked to. -/
def placing (disk : Disk) (stays : Bool) (path : Text) : Except DiskFault (List Text) :=
  (disk.follow stays path).map Location.names

/-- The names to which a path leads. -/
def place (disk : Disk) (path : Text) : Except DiskFault (List Text) := disk.placing false path

variable {disk other : Disk} {stays : Bool} {path dir name : Text} {here : Location}
  {names led there : List Text} {entry : Entry}

theorem placing_eq (stays : Bool) (hp : path ≠ []) : disk.placing stays path =
    (disk.root.naming.follow stays linkLimit [] (Path.segments (Path.join disk.current path))).map
      (·.1) := by
  have routes : _ = disk.root.naming.follow stays linkLimit []
      (Path.segments (Path.join disk.current path)) := (Location.maps_names disk.root).follow .root
  rw [placing, follow, if_neg hp, ← routes]
  generalize (Location.routing disk.root).follow stays linkLimit ⟨[], disk.root⟩
    (Path.segments (Path.join disk.current path)) = route
  cases route <;> rfl

/-- Paths lead to the same names in trees that are seen alike. -/
theorem placing_congr (hc : other.current = disk.current)
    (hs : ∀ names, other.root.sight names = disk.root.sight names) (stays : Bool) (path : Text) :
    other.placing stays path = disk.placing stays path := by
  by_cases hp : path = []
  · rw [placing, placing, follow, follow, if_pos hp, if_pos hp]
  · rw [placing_eq stays hp, placing_eq stays hp, Entry.naming_congr hs, hc]

theorem stands_of_follow (h : disk.follow stays path = .ok here) : here.Stands disk.root := by
  rw [follow] at h
  split at h
  · exact absurd h (by simp)
  · cases hr : (Location.routing disk.root).follow stays linkLimit ⟨[], disk.root⟩
        (Path.segments (Path.join disk.current path)) with
    | error fault => exact absurd h (by simp [hr, Except.map])
    | ok led =>
      obtain ⟨there, left⟩ := led
      have same : there = here := by simpa [hr, Except.map] using h
      exact same ▸ (Location.maps_names disk.root).sound_of_follow .root hr

theorem stands_of_locate (h : disk.locate path = .ok here) : here.Stands disk.root :=
  stands_of_follow h

theorem ne_nil_of_place (h : disk.place path = .ok names) : path ≠ [] := by
  rintro rfl
  exact absurd h (by simp [place, placing, follow, Except.map])

theorem place_of_locate (h : disk.locate path = .ok here) : disk.place path = .ok here.names := by
  rw [place, placing, ← locate, h]
  rfl

theorem exists_follow (h : disk.placing stays path = .ok names) :
    ∃ here, disk.follow stays path = .ok here ∧ here.names = names := by
  rw [placing] at h
  cases hl : disk.follow stays path with
  | error fault => exact absurd h (by simp [hl, Except.map])
  | ok here => exact ⟨here, rfl, by simpa [hl, Except.map] using h⟩

theorem exists_locate (h : disk.place path = .ok names) :
    ∃ here, disk.locate path = .ok here ∧ here.names = names ∧
      disk.root.at? names = some here.entry := by
  obtain ⟨here, located, rfl⟩ := exists_follow h
  exact ⟨here, located, rfl, (stands_of_follow located).at?⟩

theorem locate_of_place_error {fault : DiskFault} (h : disk.place path = .error fault) :
    disk.locate path = .error fault := by
  rw [place, placing, ← locate] at h
  cases hl : disk.locate path with
  | error other => simpa [hl, Except.map] using h
  | ok here => exact absurd h (by simp [hl, Except.map])

/-- What a read gives is told by the place and what is seen there. -/
theorem read_eq : disk.read path = disk.place path >>= fun names =>
    ((disk.root.sight names).map Entry.content).getD (.error .missing) := by
  cases hp : disk.place path with
  | error fault =>
    rw [read, locate_of_place_error hp]
    rfl
  | ok names =>
    obtain ⟨here, located, -, standing⟩ := exists_locate hp
    rw [read, located]
    simp only [bind, Except.bind, Entry.sight_of_at? standing, Option.map_some, Option.getD_some,
      Entry.content_bare]

theorem isDir_iff : disk.isDir path = true ↔ ∃ names entry, disk.place path = .ok names ∧
    disk.root.at? names = some entry ∧ entry.isDir = true := by
  rw [isDir]
  cases hp : disk.place path with
  | error fault => simp [locate_of_place_error hp]
  | ok names =>
    obtain ⟨here, located, -, standing⟩ := exists_locate hp
    simp [located, standing]

/-- A look ends where the path leads, or at a link. -/
theorem look_of_locate (h : disk.locate path = .ok here) :
    ∃ next, disk.look path = .ok next ∧ (next.entry.target? = none → next = here) := by
  rw [locate, follow] at h
  split at h
  · exact absurd h (by simp)
  · next hp =>
    cases hr : (Location.routing disk.root).follow false linkLimit ⟨[], disk.root⟩
        (Path.segments (Path.join disk.current path)) with
    | error fault => exact absurd h (by simp [hr, Except.map])
    | ok led =>
      obtain ⟨there, left⟩ := led
      have same : there = here := by simpa [hr, Except.map] using h
      obtain ⟨next, left', looked, bare⟩ := Routing.exists_follow_true hr
      refine ⟨next, ?_, fun link => (bare link).trans same⟩
      rw [look, follow, if_neg hp, looked]
      rfl

/-! ### Names behind a path -/

/-- The segments in front of a name that stands behind a path lead where the path leads, if that is
a directory. -/
theorem exists_front (disk : Disk) (hd : dir ≠ []) (hn : Path.isSegment name = true) : ∃ front,
    Path.segments (Path.join disk.current (Path.join dir name)) = front ++ [name] ∧
    (∀ led, disk.place dir = .ok led →
      ∃ left, disk.root.naming.follow false linkLimit [] front = .ok (led, left)) ∧
    ∀ led left, disk.root.naming.follow false linkLimit [] front = .ok (led, left) →
      (∃ holder, disk.root.at? led = some holder ∧ holder.isDir = true) →
      disk.place dir = .ok led := by
  obtain ⟨front, joined, written⟩ := Path.exists_segments_join disk.current hd hn
  refine ⟨front, joined, ?_⟩
  rw [place, placing_eq false hd]
  rcases written with written | written
  · rw [written]
    constructor
    · intro led h
      cases hf : disk.root.naming.follow false linkLimit [] front with
      | error fault => exact absurd h (by simp [hf, Except.map])
      | ok led' => exact ⟨led'.2, by simpa [hf, Except.map, Prod.ext_iff] using h⟩
    · intro led left h _
      rw [h]
      rfl
  · -- a slash at the end wants a directory and goes no further
    rw [written, Routing.follow_append (by simp)]
    cases hf : disk.root.naming.follow false linkLimit [] front with
    | error fault =>
      exact ⟨fun led h => absurd h (by simp [bind, Except.bind, Except.map]), fun led left h =>
        absurd h (by simp)⟩
    | ok route =>
      obtain ⟨led', left'⟩ := route
      simp only [bind, Except.bind]
      constructor
      · intro led h
        cases hs : disk.root.naming.step led' [] with
        | error fault => exact absurd h (by simp [Routing.follow_cons_of_error hs, Except.map])
        | ok next =>
          obtain ⟨holder, standing, directory⟩ := Entry.directory_of_stepAt hs
          obtain rfl := Entry.eq_of_stepAt_nil hs
          rw [Routing.follow_one hs (Entry.target?_naming standing directory)] at h
          exact ⟨left', by simpa [Except.map] using h⟩
      · rintro led left h ⟨holder, standing, directory⟩
        obtain ⟨rfl, rfl⟩ := Prod.mk.inj (Except.ok.inj h)
        have stays : disk.root.naming.step led' [] = .ok led' := Entry.stepAt_nil standing directory
        rw [Routing.follow_one stays (Entry.target?_naming standing directory)]
        rfl

/-- A name behind a path leads to what stands under it, unless that is a link. -/
theorem place_join (h : disk.place dir = .ok led) (hn : Path.isSegment name = true)
    (ha : disk.root.at? (led ++ [name]) = some entry) (hl : entry.target? = none) :
    disk.place (Path.join dir name) = .ok (led ++ [name]) := by
  obtain ⟨front, joined, led_on, -⟩ := exists_front disk (ne_nil_of_place h) hn
  obtain ⟨left, route⟩ := led_on led h
  have one : disk.root.naming.step led name = .ok (led ++ [name]) :=
    (Entry.stepAt_eq_ok_iff hn).mpr ⟨⟨entry, ha⟩, rfl⟩
  have bare : disk.root.naming.target? (led ++ [name]) = none := by
    simp [Entry.naming, Entry.sight_of_at? ha, hl]
  rw [place, placing_eq false (Path.join_ne_nil hn), joined, Routing.follow_append (by simp), route]
  simp only [bind, Except.bind, Routing.follow_one one bare]
  rfl

/-- Names behind a path lead to what stands there, unless that is a link. -/
theorem place_below (h : disk.place dir = .ok led) (hn : ∀ n ∈ names, Path.isSegment n = true)
    (ha : disk.root.at? (led ++ names) = some entry) (hl : entry.target? = none) :
    disk.place (Path.below dir names) = .ok (led ++ names) := by
  induction names generalizing dir led with
  | nil => rwa [List.append_nil]
  | cons name names ih =>
    rw [List.forall_mem_cons] at hn
    rw [List.append_cons] at ha ⊢
    have one : disk.place (Path.join dir name) = .ok (led ++ [name]) := by
      obtain ⟨child, found, below⟩ := Entry.at?_front ha
      refine place_join h hn.1 found ?_
      by_cases last : names = []
      · rw [last] at below
        exact Option.some.inj below ▸ hl
      · obtain ⟨holder, standing, directory, -⟩ := Entry.exists_holder ha last
        exact Entry.target?_of_isDir (Option.some.inj (found.symm.trans standing) ▸ directory)
    exact ih one hn.2 ha

/-- Names lead where they say from the root of a tree. -/
theorem place_below_root (ht : disk.root.isTree = true) (hr : disk.root.isDir = true)
    (ha : disk.root.at? names = some entry) (hl : entry.target? = none) :
    disk.place (Path.below ['/'] names) = .ok names := by
  have root : disk.place ['/'] = .ok [] := by
    have stays : disk.root.naming.step [] [] = .ok [] := Entry.stepAt_nil (Entry.at?_nil _) hr
    have bare : disk.root.naming.target? [] = none := Entry.target?_naming (Entry.at?_nil _) hr
    rw [place, placing_eq false (List.cons_ne_nil _ _)]
    show (disk.root.naming.follow false linkLimit [] [[], []]).map (·.1) = .ok []
    rw [Routing.follow_cons_of_none stays bare, Routing.follow_cons_of_none stays bare,
      Routing.follow_nil]
    rfl
  exact place_below root (Entry.isSegment_of_at? ht ha) ha hl

/-- Names on the way as reduced components, the last one first. -/
def reduced (names : List Text) : List Path.Component := names.reverse.map .name ++ [.root]

theorem reduce_parent (names : List Text) :
    Path.reduce (reduced names) .parent = reduced names.dropLast := by
  rcases List.eq_nil_or_concat names with rfl | ⟨front, name, rfl⟩
  · rfl
  · rw [List.concat_eq_append, reduced, List.reverse_concat, List.dropLast_concat]
    rfl

theorem reduce_name (names : List Text) (name : Text) :
    Path.reduce (reduced names) (.name name) = reduced (names ++ [name]) := by
  rw [reduced, reduced, List.reverse_concat]
  rcases names.reverse with _ | ⟨last, front⟩ <;> rfl

/-- One segment moves the names on the way and the reduced components alike. -/
theorem foldl_reduce_segment {root : Entry} {segment : Text}
    (h : root.stepAt names segment = .ok led) :
    (Path.segmentComponent? segment).toList.foldl Path.reduce (reduced names) = reduced led := by
  obtain ⟨holder, standing, directory⟩ := Entry.directory_of_stepAt h
  simp only [Entry.stepAt, Entry.sight_of_at? standing, Entry.isDir_bare, directory, Bool.not_true,
    Bool.false_eq_true, if_false] at h
  split at h
  · next empty => rw [empty, ← Except.ok.inj h]; rfl
  · next some_name =>
    split at h
    · exact absurd h (by simp)
    · split at h
      · next dot => rw [dot, ← Except.ok.inj h]; rfl
      · next dot =>
        have loud : Path.isSilent segment = false := by simp [Path.isSilent, some_name, dot]
        rw [Path.segmentComponent?, if_neg (by simp [loud])]
        split at h
        · next parent =>
          rw [if_pos parent, ← Except.ok.inj h]
          exact reduce_parent names
        · next parent =>
          rw [if_neg parent]
          split at h
          · exact absurd h (by simp)
          · rw [← Except.ok.inj h]
            exact reduce_name names segment

theorem foldl_reduce {root : Entry} {segments : List Text}
    (h : segments.foldlM root.stepAt names = .ok led) :
    (segments.filterMap Path.segmentComponent?).foldl Path.reduce
      (reduced names) = reduced led := by
  induction segments generalizing names with
  | nil => rw [← Except.ok.inj h]; rfl
  | cons segment segments ih =>
    rw [List.foldlM_cons, bind_eq_ok_iff] at h
    obtain ⟨between, one, rest⟩ := h
    rw [← ih rest, ← foldl_reduce_segment one, List.filterMap_cons]
    cases Path.segmentComponent? segment <;> rfl

section Linkless

variable (hl : disk.root.Linkless)

include hl

/-- Without links a path is followed segment by segment. -/
theorem place_eq (hp : path ≠ []) : disk.place path =
    (Path.segments (Path.join disk.current path)).foldlM disk.root.stepAt [] := by
  have unlinked (names : List Text) : disk.root.naming.target? names = none := by
    refine Option.bind_eq_none_iff.mpr fun seen hs => ?_
    obtain ⟨child, standing, rfl⟩ := Entry.sight_eq_some hs
    rw [Entry.target?_bare, hl names child standing]
  rw [place, placing_eq false hp, Routing.follow_of_target?_eq_none unlinked]
  show _ = (Path.segments (Path.join disk.current path)).foldlM disk.root.naming.step []
  generalize (Path.segments (Path.join disk.current path)).foldlM disk.root.naming.step [] = led
  cases led <;> rfl

/-- Where an absolute path leads somewhere, the place has the names of its normal form. -/
theorem normalComponents_of_place (ha : Path.isAbsolute path = true)
    (h : disk.place path = .ok names) :
    Path.normalComponents path = .root :: names.map .name := by
  rw [place_eq hl (ne_nil_of_place h), Path.join, if_pos ha] at h
  obtain ⟨rest, rfl⟩ := List.head?_eq_some_iff.mp (of_decide_eq_true ha)
  have components : Path.components ('/' :: rest) =
      .root :: (Path.segments ('/' :: rest)).filterMap Path.segmentComponent? := rfl
  have led := foldl_reduce h
  rw [Path.normalComponents, components, List.foldl_cons]
  rw [show Path.reduce [] .root = reduced [] from rfl, led, reduced, List.reverse_append,
    ← List.map_reverse, List.reverse_reverse]
  rfl

theorem names_of_place (ha : Path.isAbsolute path = true) (h : disk.place path = .ok names) :
    Path.names path = names := by
  rw [Path.names, normalComponents_of_place hl ha h, List.filterMap_cons_none rfl,
    List.filterMap_map]
  exact List.filterMap_some

/-- Without links, what exists changes no canonical path: it is the normal form. -/
theorem canonical_eq (ha : Path.isAbsolute path = true) :
    disk.canonical path = Path.normalize path := by
  rw [canonical]
  cases located : disk.locate path with
  | error fault => rfl
  | ok here =>
    have led := normalComponents_of_place hl ha (place_of_locate located)
    simp only [Location.path_eq, Path.normalize, led]
    cases here.names with
    | nil => rfl
    | cons name names =>
      have segments :
          (Path.Component.root :: (name :: names).map .name).map Path.Component.segment =
          [] :: name :: names := by
        rw [List.map_cons, List.map_map]
        exact congrArg (List.cons []) (List.map_id _)
      rw [List.map_cons, Path.ofComponents, ← List.map_cons, segments, Path.joinSegments_cons,
        Path.joinSegments_cons]
      · rfl
      · exact fun h => absurd (List.cons.inj h).2 (by simp)

end Linkless

end Disk

end SourceSurvey
