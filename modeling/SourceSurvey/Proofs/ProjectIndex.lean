import SourceSurvey.Graph.Index
import Mathlib.Data.List.Induction
import Mathlib.Data.List.Nodup
import Mathlib.Data.List.Perm.Basic

/-! Which project a key leads to. An index is filled project by project, so a key of a descriptor
path or of coordinates leads to the last project of the list that has it, and a directory to the
first. Among keys that no two projects share, a key leads to the one project that has it, wherever
that stands in the list. -/

namespace SourceSurvey

namespace Graph

open Descriptor

/-! ### First and last elements -/

section FirstAndLast

variable {α : Type} {P : α → Prop} {l : List α} {a : α}

/-- The first element of a list that has a property. -/
def IsFirst (P : α → Prop) (l : List α) (a : α) : Prop :=
  P a ∧ ∃ before after, l = before ++ a :: after ∧ ∀ b ∈ before, ¬ P b

/-- The last element of a list that has a property. -/
def IsLast (P : α → Prop) (l : List α) (a : α) : Prop :=
  P a ∧ ∃ before after, l = before ++ a :: after ∧ ∀ b ∈ after, ¬ P b

theorem isFirst_of_find? [DecidablePred P]
    (h : l.find? (fun a => P a) = some a) : IsFirst P l a := by
  obtain ⟨ha, before, after, rfl, hb⟩ := List.find?_eq_some_iff_append.mp h
  exact ⟨of_decide_eq_true ha, before, after, rfl, fun b hm => by simpa using hb b hm⟩

theorem isLast_of_find?_reverse [DecidablePred P] (h : l.reverse.find? (fun a => P a) = some a) :
    IsLast P l a := by
  obtain ⟨ha, before, after, split, hb⟩ := isFirst_of_find? h
  refine ⟨ha, after.reverse, before.reverse, ?_, fun b hm => hb b (List.mem_reverse.mp hm)⟩
  rw [← l.reverse_reverse, split, List.reverse_append, List.reverse_cons, List.append_assoc,
    List.singleton_append]

theorem exists_isFirst [DecidablePred P] (h : ∃ b ∈ l, P b) :
    ∃ a, l.find? (fun a => P a) = some a ∧ IsFirst P l a := by
  obtain ⟨b, hb, held⟩ := h
  have any : (l.find? fun a => P a).isSome = true :=
    List.find?_isSome.mpr ⟨b, hb, decide_eq_true held⟩
  obtain ⟨a, found⟩ := Option.isSome_iff_exists.mp any
  exact ⟨a, found, isFirst_of_find? found⟩

theorem exists_isLast [DecidablePred P] (h : ∃ b ∈ l, P b) :
    ∃ a, l.reverse.find? (fun a => P a) = some a ∧ IsLast P l a := by
  obtain ⟨b, hb, held⟩ := h
  obtain ⟨a, found, -⟩ := exists_isFirst ⟨b, List.mem_reverse.mpr hb, held⟩
  exact ⟨a, found, isLast_of_find?_reverse found⟩

theorem IsLast.mem (h : IsLast P l a) : a ∈ l := by
  obtain ⟨-, before, after, rfl, -⟩ := h
  exact List.mem_append_right before List.mem_cons_self

end FirstAndLast

/-! ### Keys that no two elements share -/

section Distinct

variable {α β : Type} [DecidableEq β] {key : α → Option β} {k : β} {l l' : List α} {a : α}

theorem find?_eq_some_iff_mem (hl : (l.filterMap key).Nodup) :
    l.find? (fun a => key a = some k) = some a ↔ a ∈ l ∧ key a = some k := by
  constructor
  · intro h
    exact ⟨List.mem_of_find?_eq_some h, of_decide_eq_true (List.find?_some h :)⟩
  · rintro ⟨hm, ha⟩
    induction l with
    | nil => exact absurd hm List.not_mem_nil
    | cons b l ih =>
      by_cases hb : key b = some k
      · rw [List.filterMap_cons_some hb, List.nodup_cons] at hl
        rw [List.find?_cons_of_pos (by simpa using hb)]
        rcases List.mem_cons.mp hm with rfl | hm
        · rfl
        · exact absurd (List.mem_filterMap.mpr ⟨a, hm, ha⟩) hl.1
      · rw [List.find?_cons_of_neg (by simpa using hb)]
        have rest : a ∈ l := (List.mem_cons.mp hm).resolve_left fun same => hb (same ▸ ha)
        exact ih (hl.sublist ((List.sublist_cons_self b l).filterMap key)) rest

/-- Where no two elements share a key, the order of the list does not matter. -/
theorem find?_perm (hl : (l.filterMap key).Nodup) (hp : l.Perm l') :
    l'.find? (fun a => key a = some k) = l.find? (fun a => key a = some k) := by
  have hl' : (l'.filterMap key).Nodup := (hp.filterMap key).nodup_iff.mp hl
  refine Option.ext fun a => ?_
  rw [find?_eq_some_iff_mem hl, find?_eq_some_iff_mem hl', hp.mem_iff]

theorem find?_perm_map {f : α → β} (hl : (l.map f).Nodup) (hp : l.Perm l') :
    l'.find? (fun a => f a = k) = l.find? (fun a => f a = k) := by
  rw [← List.filterMap_eq_map] at hl
  simpa using find?_perm (k := k) hl hp

end Distinct

/-! ### Look-ups in an index -/

/-- The Maven project that a project is, if it is one. -/
def pom? : Project → Option Pom
  | .dotnet _ => none
  | .maven pom => some pom

/-- The Maven projects of a list in their order. -/
def poms (projects : List Project) : List Pom := projects.filterMap pom?

theorem mem_poms {projects : List Project} {pom : Pom} :
    pom ∈ poms projects ↔ .maven pom ∈ projects := by
  rw [poms, List.mem_filterMap]
  constructor
  · rintro ⟨project, hm, hp⟩
    cases project with
    | dotnet _ => exact absurd hp (by simp [pom?])
    | maven found => exact Option.some.inj hp ▸ hm
  · intro hm
    exact ⟨_, hm, rfl⟩

theorem find?_poms (P : Pom → Bool) (projects : List Project) :
    (poms projects).find? P = projects.findSome? fun project => (pom? project).filter P := by
  induction projects with
  | nil => rfl
  | cons project projects ih =>
    cases project with
    | dotnet p => exact ih
    | maven pom =>
      rw [poms, List.filterMap_cons_some (rfl : pom? (.maven pom) = some pom),
        List.findSome?_cons, pom?, Option.filter_some]
      cases hp : P pom with
      | false =>
        rw [List.find?_cons_of_neg (by simp [hp])]
        exact ih
      | true => rw [List.find?_cons_of_pos (by simp [hp])]; rfl

namespace Index

variable {α : Type} {answer : Project → Option α}

theorem ofProjects_concat (projects : List Project) (project : Project) :
    ofProjects (projects ++ [project]) = (ofProjects projects).add project := List.foldl_concat ..

/-- A look-up that the newest project answers first is answered by the last project that can. -/
theorem look_latest (look : Index → Option α) (none_empty : look empty = none)
    (step : ∀ index project, look (index.add project) = (answer project).or (look index))
    (projects : List Project) :
    look (ofProjects projects) = projects.reverse.findSome? answer := by
  induction projects using List.reverseRecOn with
  | nil => exact none_empty
  | append_singleton projects project ih =>
    rw [ofProjects_concat, step, ih, List.reverse_concat, List.findSome?_cons]
    cases answer project <;> rfl

/-- A look-up that the newest project answers last is answered by the first project that can. -/
theorem look_earliest (look : Index → Option α) (none_empty : look empty = none)
    (step : ∀ index project, look (index.add project) = (look index).or (answer project))
    (projects : List Project) :
    look (ofProjects projects) = projects.findSome? answer := by
  induction projects using List.reverseRecOn with
  | nil => exact none_empty
  | append_singleton projects project ih =>
    rw [ofProjects_concat, step, ih, List.findSome?_append, List.findSome?_singleton]

/-! The four tables, one project at a time and then for a whole list. -/

section Tables

variable (projects : List Project) (key : Text)

theorem get?_byDescriptor_add (index : Index) (project : Project) :
    (index.add project).byDescriptor.get? key =
    (Option.guard (fun q : Project => Path.normalize q.path = key) project).or
      (index.byDescriptor.get? key) := by
  have put :
      (index.add project).byDescriptor = index.byDescriptor.put
        (Path.normalize project.path) project := by
    cases project <;> rfl
  rw [put, Table.get?_put]
  by_cases h : key = Path.normalize project.path <;> simp [Option.guard, h, eq_comm]

theorem get?_byDir_add (index : Index) (project : Project) : (index.add project).byDir.get? key =
    (index.byDir.get? key).or
      (Option.guard (fun q : Project => Path.normalize q.dir = key) project) := by
  have put : (index.add project).byDir = index.byDir.putNew
      (Path.normalize project.dir) project := by
    cases project <;> rfl
  rw [put, Table.get?_putNew]
  by_cases h : key = Path.normalize project.dir <;> simp [Option.guard, h, eq_comm]

theorem get?_putKey? (table : Table Pom) (own : Option Text) (pom : Pom) :
    (putKey? table own pom).get? key = if own = some key then some pom else table.get? key := by
  cases own with
  | none => rw [putKey?, if_neg (by simp)]
  | some own =>
    rw [putKey?, Table.get?_put]
    by_cases h : key = own <;> simp [h, eq_comm]

/-- A descriptor path leads to the last project that has it. -/
theorem get?_byDescriptor : (ofProjects projects).byDescriptor.get? key =
    projects.reverse.find? fun q => Path.normalize q.path = key := by
  rw [← List.findSome?_guard]
  exact look_latest (·.byDescriptor.get? key) rfl (get?_byDescriptor_add key) projects

/-- A directory leads to the first project in it. -/
theorem get?_byDir : (ofProjects projects).byDir.get? key = projects.find? fun q =>
    Path.normalize q.dir = key := by
  rw [← List.findSome?_guard]
  exact look_earliest (·.byDir.get? key) rfl (get?_byDir_add key) projects

/-- A key that some Maven projects have leads to the last of them. -/
theorem get?_ofPoms {table : Index → Table Pom} {own : Pom → Option Text}
    (none_empty : table empty = [])
    (dotnet : ∀ index p, table (index.add (.dotnet p)) = table index)
    (maven : ∀ index pom, table (index.add (.maven pom)) = putKey? (table index) (own pom) pom) :
    (table (ofProjects projects)).get? key = (poms projects).reverse.find? fun pom =>
      own pom = some key := by
  have reversed : (poms projects).reverse = poms projects.reverse := List.filterMap_reverse.symm
  rw [reversed, find?_poms]
  refine look_latest (fun index => (table index).get? key) (by rw [none_empty]; rfl) ?_ projects
  intro index project
  cases project with
  | dotnet p => rw [dotnet]; rfl
  | maven pom =>
    rw [maven, get?_putKey?, pom?, Option.filter_some]
    by_cases h : own pom = some key <;> simp [h]

theorem get?_byGav : (ofProjects projects).byGav.get? key =
    (poms projects).reverse.find? fun pom => pom.coordinates.gav? = some key :=
  get?_ofPoms projects key rfl (fun _ _ => rfl) fun _ _ => rfl

theorem get?_byGa : (ofProjects projects).byGa.get? key =
    (poms projects).reverse.find? fun pom => pom.coordinates.ga? = some key :=
  get?_ofPoms projects key rfl (fun _ _ => rfl) fun _ _ => rfl

end Tables

end Index

end Graph

end SourceSurvey
