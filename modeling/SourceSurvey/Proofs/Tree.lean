import SourceSurvey.Disk.Basic
import SourceSurvey.Proofs.Segments
import Mathlib.Data.List.Nodup

/-! Trees and what stands in them. In a tree every directory holds its entries under names that are
segments, each name once. An entry stands at the names that lead to it through directories that can
be opened. What is seen of it there leaves out what it holds, and a tree is told by what is seen at
which names, up to the order in which its directories hold their entries. -/

namespace SourceSurvey

open Text

namespace Entry

@[elab_as_elim] theorem inductionOn {motive : Entry → Prop} (e : Entry)
    (holder : ∀ e, (∀ child ∈ e.entries, motive child.2) → motive e) : motive e :=
  holder e fun child _ => inductionOn child.2 holder
termination_by sizeOf e
decreasing_by
  have smaller := List.sizeOf_lt_of_mem ‹child ∈ e.entries›
  obtain ⟨name, entry⟩ := child
  cases e <;> simp only [entries, dir.sizeOf_spec, torn.sizeOf_spec, Prod.mk.sizeOf_spec] at * <;>
    first | omega | exact absurd ‹_ ∈ ([] : List (Text × Entry))› List.not_mem_nil

/-! ### Trees -/

mutual

/-- Whether every directory holds its entries under names that are segments, each name once. -/
def isTree : Entry → Bool
  | dir entries | torn entries _ => areTrees entries
  | file _ | link _ | lockedFile _ | lockedDir _ => true

def areTrees : List (Text × Entry) → Bool
  | [] => true
  | (name, entry) :: rest =>
    Path.isSegment name && !(rest.any fun other => other.1 = name) && entry.isTree && areTrees rest

end

mutual

/-- Whether no link stands anywhere below an entry, nor is it one. -/
def isLinkless : Entry → Bool
  | dir entries | torn entries _ => areLinkless entries
  | file _ | lockedFile _ | lockedDir _ => true
  | link _ => false

def areLinkless : List (Text × Entry) → Bool
  | [] => true
  | (_, entry) :: rest => entry.isLinkless && areLinkless rest

end

/-- Whether something is a file, be it one that cannot be opened. -/
def isFile : Entry → Bool
  | file _ | lockedFile _ => true
  | dir _ | torn .. | link _ | lockedDir _ => false

variable {e child holder : Entry} {name : Text} {names rest : List Text}

theorem areTrees_iff {entries : List (Text × Entry)} : areTrees entries = true ↔
    (∀ child ∈ entries, Path.isSegment child.1 = true ∧ child.2.isTree = true) ∧
      (entries.map (·.1)).Nodup := by
  induction entries with
  | nil => simp [areTrees]
  | cons first rest ih =>
    obtain ⟨name, entry⟩ := first
    simp only [areTrees, Bool.and_eq_true, ih, List.forall_mem_cons, List.map_cons, List.nodup_cons]
    simp only [Bool.not_eq_true', List.any_eq_false, decide_eq_true_eq, List.mem_map, not_exists,
      not_and]
    tauto

theorem isTree_iff : e.isTree = true ↔
    (∀ child ∈ e.entries, Path.isSegment child.1 = true ∧ child.2.isTree = true) ∧
      (e.entries.map (·.1)).Nodup := by
  rw [← areTrees_iff]
  cases e <;> simp [isTree, entries, areTrees]

theorem mem_of_entry?_eq_some (h : e.entry? name = some child) : (name, child) ∈ e.entries := by
  obtain ⟨⟨other, entry⟩, found, rfl⟩ := Option.map_eq_some_iff.mp h
  have same : other = name := by simpa using List.find?_some found
  exact same ▸ List.mem_of_find?_eq_some found

/-- What a tree holds under a name is a tree under a segment. -/
theorem isTree_of_entry?_eq_some (ht : e.isTree = true) (h : e.entry? name = some child) :
    Path.isSegment name = true ∧ child.isTree = true :=
  (isTree_iff.mp ht).1 (name, child) (mem_of_entry?_eq_some h)

theorem entry?_eq_some_iff (ht : e.isTree = true) :
    e.entry? name = some child ↔ (name, child) ∈ e.entries := by
  refine ⟨mem_of_entry?_eq_some, fun h => ?_⟩
  have distinct := (isTree_iff.mp ht).2
  obtain ⟨other, found⟩ : ∃ other, e.entries.find? (fun c => c.1 = name) = some other :=
    Option.isSome_iff_exists.mp (List.find?_isSome.mpr ⟨(name, child), h, by simp⟩)
  have same : other.1 = name := by simpa using List.find?_some found
  have one : other = (name, child) :=
    List.inj_on_of_nodup_map distinct (List.mem_of_find?_eq_some found) h same
  exact Option.map_eq_some_iff.mpr ⟨_, found, congrArg Prod.snd one⟩

/-- Only a directory that can be opened holds something. -/
theorem opens_of_entry?_eq_some (h : e.entry? name = some child) :
    e.isDir = true ∧ e.lock? = none ∧ e.target? = none := by
  have held := mem_of_entry?_eq_some h
  cases e <;> first | exact ⟨rfl, rfl, rfl⟩ | exact absurd held List.not_mem_nil

theorem target?_of_isDir (h : e.isDir = true) : e.target? = none := by
  cases e <;> first | rfl | exact absurd h (by simp [isDir])

theorem target?_of_isFile (h : e.isFile = true) : e.target? = none := by
  cases e <;> first | rfl | exact absurd h (by simp [isFile])

theorem isDir_of_isFile (h : e.isFile = true) : e.isDir = false := by
  cases e <;> first | rfl | exact absurd h (by simp [isFile])

/-! ### What stands at some names -/

/-- The entry at some names below an entry. -/
def at? : List Text → Entry → Option Entry
  | [], e => some e
  | name :: names, e => (e.entry? name).bind (at? names)

@[simp] theorem at?_nil (e : Entry) : e.at? [] = some e := rfl

theorem at?_cons (name : Text) (names : List Text) (e : Entry) :
    e.at? (name :: names) = (e.entry? name).bind (at? names) := rfl

theorem at?_append (names rest : List Text) (e : Entry) :
    e.at? (names ++ rest) = (e.at? names).bind (at? rest) := by
  induction names generalizing e with
  | nil => rfl
  | cons name names ih =>
    rw [List.cons_append, at?_cons, at?_cons, Option.bind_assoc, funext ih]

theorem at?_concat (names : List Text) (name : Text) (e : Entry) :
    e.at? (names ++ [name]) = (e.at? names).bind fun holder => holder.entry? name := by
  rw [at?_append]
  exact congrArg _ (funext fun e => Option.bind_fun_some (e.entry? name))

/-- Nothing but directories that can be opened stands on the way to what stands in a tree. -/
theorem exists_holder (h : e.at? (names ++ rest) = some child) (hr : rest ≠ []) :
    ∃ holder, e.at? names = some holder ∧ holder.isDir = true ∧ holder.lock? = none ∧
      holder.at? rest = some child := by
  rw [at?_append, Option.bind_eq_some_iff] at h
  obtain ⟨holder, standing, below⟩ := h
  obtain ⟨name, rest, rfl⟩ := List.exists_cons_of_ne_nil hr
  obtain ⟨next, held, -⟩ := Option.bind_eq_some_iff.mp below
  obtain ⟨directory, unlocked, -⟩ := opens_of_entry?_eq_some held
  exact ⟨holder, standing, directory, unlocked, below⟩

theorem isDir_of_at? (h : e.at? names = some holder) (hd : holder.isDir = true) :
    e.isDir = true := by
  by_cases hn : names = []
  · subst hn
    exact Option.some.inj h ▸ hd
  · obtain ⟨first, standing, directory, -⟩ :=
      exists_holder (show e.at? ([] ++ names) = some holder from h) hn
    exact Option.some.inj standing ▸ directory

theorem at?_front (h : e.at? (names ++ rest) = some child) :
    ∃ holder, e.at? names = some holder ∧ holder.at? rest = some child := by
  rwa [at?_append, Option.bind_eq_some_iff] at h

/-- What every directory hands on to what it holds reaches whatever stands below. -/
theorem of_at? {motive : Entry → Prop} (h : e.at? names = some child) (he : motive e)
    (hands_on : ∀ {holder name held}, motive holder → holder.entry? name = some held →
      motive held) : motive child := by
  induction names generalizing e with
  | nil => exact Option.some.inj h ▸ he
  | cons name names ih =>
    obtain ⟨next, held, below⟩ := Option.bind_eq_some_iff.mp h
    exact ih below (hands_on he held)

theorem isTree_at? (ht : e.isTree = true) (h : e.at? names = some child) : child.isTree = true :=
  of_at? (motive := fun e => e.isTree = true) h ht fun tree held =>
    (isTree_of_entry?_eq_some tree held).2

/-- Whatever stands in a tree stands at segments. -/
theorem isSegment_of_at? (ht : e.isTree = true) (h : e.at? names = some child) :
    ∀ n ∈ names, Path.isSegment n = true := by
  induction names generalizing e with
  | nil => simp
  | cons name names ih =>
    obtain ⟨next, held, below⟩ := Option.bind_eq_some_iff.mp h
    obtain ⟨segment, tree⟩ := isTree_of_entry?_eq_some ht held
    exact List.forall_mem_cons.mpr ⟨segment, ih tree below⟩

theorem areLinkless_iff {entries : List (Text × Entry)} :
    areLinkless entries = true ↔ ∀ child ∈ entries, child.2.isLinkless = true := by
  induction entries with
  | nil => simp [areLinkless]
  | cons first rest ih =>
    obtain ⟨name, entry⟩ := first
    simp only [areLinkless, Bool.and_eq_true, ih, List.forall_mem_cons]

theorem isLinkless_iff : e.isLinkless = true ↔
    e.target? = none ∧ ∀ child ∈ e.entries, child.2.isLinkless = true := by
  rw [← areLinkless_iff]
  cases e <;> simp [isLinkless, entries, areLinkless, target?]

theorem isLinkless_at? (hl : e.isLinkless = true) (h : e.at? names = some child) :
    child.isLinkless = true :=
  of_at? (motive := fun e => e.isLinkless = true) h hl fun linkless held =>
    (isLinkless_iff.mp linkless).2 _ (mem_of_entry?_eq_some held)

/-- No link stands at any names. -/
def Linkless (e : Entry) : Prop :=
  ∀ names child, e.at? names = some child → child.target? = none

theorem linkless_of_isLinkless (h : e.isLinkless = true) : e.Linkless :=
  fun _ _ standing => (isLinkless_iff.mp (isLinkless_at? h standing)).1

/-! ### What is seen at some names -/

/-- An entry without what it holds. -/
def bare : Entry → Entry
  | dir _ => dir []
  | torn _ fault => torn [] fault
  | e => e

@[simp] theorem isDir_bare (e : Entry) : e.bare.isDir = e.isDir := by cases e <;> rfl

@[simp] theorem isFile_bare (e : Entry) : e.bare.isFile = e.isFile := by cases e <;> rfl

@[simp] theorem lock?_bare (e : Entry) : e.bare.lock? = e.lock? := by cases e <;> rfl

@[simp] theorem target?_bare (e : Entry) : e.bare.target? = e.target? := by cases e <;> rfl

@[simp] theorem content_bare (e : Entry) : e.bare.content = e.content := by cases e <;> rfl

/-- What is seen at some names below an entry. -/
def sight (names : List Text) (e : Entry) : Option Entry := (e.at? names).map bare

@[simp] theorem sight_nil (e : Entry) : e.sight [] = some e.bare := rfl

theorem sight_cons (name : Text) (names : List Text) (e : Entry) :
    e.sight (name :: names) = (e.entry? name).bind (sight names) :=
  Option.map_bind

theorem sight_eq_some {seen : Entry} (h : e.sight names = some seen) :
    ∃ child, e.at? names = some child ∧ child.bare = seen :=
  Option.map_eq_some_iff.mp h

theorem sight_of_at? (h : e.at? names = some child) : e.sight names = some child.bare := by
  rw [sight, h, Option.map_some]

end Entry

end SourceSurvey
