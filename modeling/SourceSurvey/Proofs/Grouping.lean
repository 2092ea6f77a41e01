import SourceSurvey.Graph.Table
import SourceSurvey.Proofs.Accounting
import SourceSurvey.Proofs.PathOrder
import SourceSurvey.Proofs.SolidPart
import SourceSurvey.Proofs.Clauses
import Mathlib.Data.List.Induction

/-! Files grouped by scope. Scopes stand in the order of their keys, so they are told by what stands
under each key, and under a key stand the files that have it, in the order in which they came. So
the files of two lists can be grouped apart and the groups put together. A scope that a text
declares is never written like the key of files that declare none. -/

namespace SourceSurvey

open Text

/-! ### Tables in the order of their keys -/

namespace Graph.Table

variable {α : Type} {table other : Table α} {key k : Text} {v : α}

/-- Whether keys ascend, so that each stands once. -/
def Ascending (table : Table α) : Prop :=
  (table.map (·.1)).Pairwise fun a b => Text.le a b = true ∧ a ≠ b

theorem get?_cons (entry : Text × α) (table : Table α) (k : Text) :
    get? (entry :: table) k = if entry.1 = k then some entry.2 else get? table k := by
  rw [get?, List.find?_cons]
  by_cases h : entry.1 = k
  · simp [h]
  · simp [h, get?]

theorem isSome_get?_iff : (get? table k).isSome ↔ k ∈ table.map (·.1) := by
  induction table with
  | nil => simp [get?]
  | cons entry table ih =>
    rw [get?_cons, List.map_cons, List.mem_cons]
    split
    · next h => simp [h]
    · next h => rw [ih, or_iff_right (Ne.symm h)]

theorem get?_eq_none (h : k ∉ table.map (·.1)) : get? table k = none :=
  Option.not_isSome_iff_eq_none.mp fun told => h (isSome_get?_iff.mp told)

/-- A table of values that the keys tell. -/
theorem get?_map (keys : List Text) (f : Text → α) (k : Text) :
    get? (keys.map fun key => (key, f key)) k = if k ∈ keys then some (f k) else none := by
  induction keys with
  | nil => rfl
  | cons key keys ih =>
    rw [List.map_cons, get?_cons, ih]
    by_cases h : key = k
    · simp [h]
    · simp [h, Ne.symm h]

instance : Std.Irrefl fun a b : Text => Text.le a b = true ∧ a ≠ b := ⟨fun _ h => h.2 rfl⟩

instance : Std.Antisymm fun a b : Text => Text.le a b = true ∧ a ≠ b :=
  ⟨fun _ _ hab hba => absurd (Text.le_antisymm hab.1 hba.1) hab.2⟩

/-- Tables in the order of their keys are told by their values. -/
theorem Ascending.ext (ht : Ascending table) (ho : Ascending other)
    (h : ∀ k, get? table k = get? other k) :
    table = other := by
  have keys : table.map (·.1) = other.map (·.1) :=
    ht.eq_of_mem_iff ho fun k => by rw [← isSome_get?_iff, ← isSome_get?_iff, h]
  induction table generalizing other with
  | nil => exact (List.map_eq_nil_iff.mp keys.symm).symm
  | cons entry table ih =>
    cases other with
    | nil => exact absurd keys (by simp)
    | cons first other =>
      rw [List.map_cons, List.map_cons, List.cons.injEq] at keys
      have value := h entry.1
      rw [get?_cons, get?_cons, if_pos rfl, if_pos keys.1.symm, Option.some.injEq] at value
      rw [Ascending, List.map_cons, List.pairwise_cons] at ht ho
      refine congrArg₂ List.cons (Prod.ext keys.1 value) (ih ht.2 ho.2 (fun k => ?_) keys.2)
      have rest := h k
      rw [get?_cons, get?_cons, ← keys.1] at rest
      by_cases hk : entry.1 = k
      · -- the first key stands nowhere behind
        have apart : k ∉ table.map (·.1) := fun inside => (ht.1 k inside).2 hk
        rw [get?_eq_none apart, get?_eq_none (keys.2 ▸ apart)]
      · rwa [if_neg hk, if_neg hk] at rest

end Graph.Table

namespace Scan

open Source SourceSurvey.Graph

variable {scopes : List (Text × ScopeSummary)} {key k : Text} {f : FileSummary}

/-! ### One file more -/

theorem mem_keys_addToScope : k ∈ (addToScope key f scopes).map (·.1) ↔ k = key ∨
    k ∈ scopes.map (·.1) := by
  induction scopes with
  | nil => simp [addToScope]
  | cons entry rest ih =>
    rw [addToScope]
    split
    · next h => simp [h]
    · split
      · simp
      · rw [List.map_cons, List.mem_cons, ih, List.map_cons, List.mem_cons, or_left_comm]

theorem ascending_addToScope (h : Table.Ascending scopes) :
    Table.Ascending (addToScope key f scopes) := by
  induction scopes with
  | nil => exact List.pairwise_singleton _ _
  | cons entry rest ih =>
    rw [addToScope]
    split
    · next same => rwa [Table.Ascending, List.map_cons, ← same]
    · next apart =>
      rw [Table.Ascending, List.map_cons, List.pairwise_cons] at h
      split
      · next before =>
        rw [Table.Ascending, List.map_cons, List.map_cons]
        refine List.pairwise_cons.mpr ⟨fun k hk => ?_, List.pairwise_cons.mpr h⟩
        rcases List.mem_cons.mp hk with rfl | hk
        · exact ⟨before, Ne.symm apart⟩
        · refine ⟨Text.le_trans before (h.1 k hk).1, ?_⟩
          rintro rfl
          exact apart (Text.le_antisymm (h.1 _ hk).1 before)
      · next behind =>
        refine List.pairwise_cons.mpr ⟨fun k hk => ?_, ih h.2⟩
        rcases mem_keys_addToScope.mp hk with hk | hk
        · exact hk ▸ ⟨(Bool.or_eq_true _ _ ▸ Text.le_total entry.1 key).resolve_right behind, apart⟩
        · exact h.1 k hk

/-- A file changes what stands under its key alone. -/
theorem get?_addToScope (h : Table.Ascending scopes) : Table.get? (addToScope key f scopes) k =
    if k = key then some (((Table.get? scopes key).getD .empty).add f) else
        Table.get? scopes k := by
  induction scopes with
  | nil =>
    rw [addToScope, Table.get?_cons]
    exact ite_congr (by simp [eq_comm]) (fun _ => rfl) fun _ => rfl
  | cons entry rest ih =>
    rw [Table.Ascending, List.map_cons, List.pairwise_cons] at h
    rw [addToScope, Table.get?_cons entry, Table.get?_cons entry]
    by_cases same : entry.1 = key
    · rw [if_pos same, if_pos same, Table.get?_cons]
      by_cases hk : k = key
      · simp [hk]
      · simp [hk, Ne.symm hk, same]
    rw [if_neg same, if_neg same]
    split
    · next before =>
      -- the keys behind come later still, so the key is new
      have new : key ∉ rest.map (·.1) :=
        fun inside => same (Text.le_antisymm (h.1 key inside).1 before)
      rw [Table.get?_cons, Table.get?_cons, Table.get?_eq_none new]
      by_cases hk : k = key
      · simp [hk]
      · simp [hk, Ne.symm hk]
    · rw [Table.get?_cons, ih h.2]
      by_cases hk : k = key
      · simp [hk, same]
      · simp [hk]

/-! ### All files -/

/-- What stands under the key of some files. -/
def ScopeSummary.ofFiles (files : List FileSummary) : ScopeSummary :=
  ⟨files.map (·.path), (files.filter (·.error.isNone)).flatMap (·.types)⟩

/-- The files with a key. -/
def filesUnder (key : Text) (files : List FileSummary) : List FileSummary :=
  files.filter fun f => f.scopeKey = key

theorem ScopeSummary.ofFiles_append (a b : List FileSummary) :
    ofFiles (a ++ b) = ⟨(ofFiles a).files ++ (ofFiles b).files,
      (ofFiles a).types ++ (ofFiles b).types⟩ := by
  simp only [ofFiles, List.map_append, List.filter_append, List.flatMap_append]

theorem ScopeSummary.ofFiles_concat (files : List FileSummary) (f : FileSummary) :
    ofFiles (files ++ [f]) = (ofFiles files).add f := by
  rw [ofFiles_append, add]
  cases h : f.error <;> simp [ofFiles, h]

theorem filesUnder_append (key : Text) (a b : List FileSummary) :
    filesUnder key (a ++ b) = filesUnder key a ++ filesUnder key b := List.filter_append ..

/-- A key that no file has has nothing under it. -/
theorem getD_filesUnder (files : List FileSummary) (k : Text) :
    (if k ∈ files.map (·.scopeKey) then some (ScopeSummary.ofFiles (filesUnder k files)) else
      none).getD .empty =
      .ofFiles (filesUnder k files) := by
  split
  · rfl
  · next free =>
    have none : filesUnder k files = [] := List.filter_eq_nil_iff.mpr fun f hf => by
      rw [decide_eq_true_eq]
      rintro rfl
      exact free (List.mem_map_of_mem hf)
    rw [none]
    rfl

theorem scopes_concat (files : List FileSummary) (f : FileSummary) :
    (aggregate (files ++ [f])).1.scopes = addToScope f.scopeKey f (aggregate files).1.scopes := by
  rw [aggregate, List.foldl_append]
  rfl

theorem ascending_aggregate (files : List FileSummary) :
    Table.Ascending (aggregate files).1.scopes := by
  induction files using List.reverseRecOn with
  | nil => exact List.Pairwise.nil
  | append_singleton files f ih => exact scopes_concat files f ▸ ascending_addToScope ih

/-- Under a key stand the files that have it, in their order. -/
theorem get?_aggregate (files : List FileSummary) (k : Text) :
    Table.get? (aggregate files).1.scopes k =
    if k ∈ files.map (·.scopeKey) then some (.ofFiles (filesUnder k files)) else none := by
  induction files using List.reverseRecOn generalizing k with
  | nil => rfl
  | append_singleton files f ih =>
    rw [scopes_concat, get?_addToScope (ascending_aggregate files), ih, ih, getD_filesUnder,
      filesUnder_append, List.map_append]
    by_cases hk : k = f.scopeKey
    · have under : filesUnder k [f] = [f] := by simp [filesUnder, hk]
      rw [if_pos hk, if_pos (List.mem_append_right _ (by simp [hk])), under,
        ScopeSummary.ofFiles_concat, hk]
    · have under : filesUnder k [f] = [] := by simp [filesUnder, Ne.symm hk]
      rw [if_neg hk, under, List.append_nil]
      simp [hk]

/-- The keys of some files in order, each once. -/
def keysOf (files : List FileSummary) : List Text := sortedDistinct Text.le (files.map (·.scopeKey))

theorem pairwise_sortedDistinct_le (keys : List Text) :
    (sortedDistinct Text.le keys).Pairwise fun a b => Text.le a b = true ∧ a ≠ b :=
  pairwise_sortedDistinct Text.le_total (fun _ _ _ => Text.le_trans) fun _ _ _ _ => Text.le_antisymm

theorem map_fst_graph {α : Type} (keys : List Text) (g : Text → α) :
    (keys.map fun key => (key, g key)).map (·.1) = keys := by
  rw [List.map_map]
  exact List.map_id keys

/-- The scopes of some files, key by key. -/
theorem scopes_aggregate (files : List FileSummary) :
    (aggregate files).1.scopes = (keysOf files).map fun key =>
      (key, .ofFiles (filesUnder key files)) := by
  refine (ascending_aggregate files).ext ?_ fun k => ?_
  · rw [Table.Ascending, map_fst_graph]
    exact pairwise_sortedDistinct_le _
  · rw [get?_aggregate, Table.get?_map, keysOf]
    simp only [mem_sortedDistinct]

/-! ### Aggregates put together -/

namespace SourceSummary

def keys (s : SourceSummary) : List Text := s.scopes.map (·.1)

/-- What stands under a key; under a key that there is not, nothing. -/
def scopeAt (s : SourceSummary) (key : Text) : ScopeSummary := (Table.get? s.scopes key).getD .empty

/-- Two summaries put together: under each key the files and types of the first come before those of
the second. -/
def merge (s t : SourceSummary) : SourceSummary where
  scopes := (sortedDistinct Text.le (s.keys ++ t.keys)).map fun key =>
    (key, ⟨(s.scopeAt key).files ++ (t.scopeAt key).files,
      (s.scopeAt key).types ++ (t.scopeAt key).types⟩)
  fileCount := s.fileCount + t.fileCount
  error := s.error.or t.error

end SourceSummary

theorem keys_aggregate (files : List FileSummary) : (aggregate files).1.keys = keysOf files := by
  rw [SourceSummary.keys, scopes_aggregate, map_fst_graph]

theorem scopeAt_aggregate (files : List FileSummary) (key : Text) :
    (aggregate files).1.scopeAt key = .ofFiles (filesUnder key files) := by
  rw [SourceSummary.scopeAt, get?_aggregate, getD_filesUnder]

theorem fileCount_aggregate (files : List FileSummary) :
    (aggregate files).1.fileCount = files.length :=
  (foldl_add files .empty).2.trans (Nat.zero_add _)

theorem error_aggregate (files : List FileSummary) : (aggregate files).1.error = none := by
  induction files using List.reverseRecOn with
  | nil => rfl
  | append_singleton files f ih =>
    rw [aggregate, List.foldl_append]
    exact ih

theorem SourceSummary.ext {s t : SourceSummary} (scopes : s.scopes = t.scopes)
    (fileCount : s.fileCount = t.fileCount) (error : s.error = t.error) : s = t := by
  cases s
  cases t
  simp_all

/-- The files of two lists can be grouped apart and the groups put together. -/
theorem aggregate_append (a b : List FileSummary) :
    aggregate (a ++ b) = ((aggregate a).1.merge (aggregate b).1,
      (aggregate a).2 ++ (aggregate b).2) := by
  have keys :
      keysOf (a ++ b) = sortedDistinct Text.le ((aggregate a).1.keys ++ (aggregate b).1.keys) := by
    refine (pairwise_sortedDistinct_le _).eq_of_mem_iff (pairwise_sortedDistinct_le _) fun k => ?_
    simp only [keys_aggregate, keysOf, mem_sortedDistinct, List.map_append, List.mem_append]
  refine Prod.ext (SourceSummary.ext ?_ ?_ ?_) (List.filterMap_append ..)
  · simp only [scopes_aggregate, SourceSummary.merge, ← keys, scopeAt_aggregate, filesUnder_append,
      ScopeSummary.ofFiles_append]
  · simp only [SourceSummary.merge, fileCount_aggregate, List.length_append]
  · simp only [SourceSummary.merge, error_aggregate, Option.or_none]

/-! ### What a list of files gives -/

/-- Files grouped by their keys, with nothing lost and nothing added. -/
structure Groups (files : List FileSummary) (summary : SourceSummary)
    (diagnostics : List Diagnostic) : Prop where
  /-- Each key stands once, in the order of the keys. -/
  ascending : Table.Ascending summary.scopes
  keys : ∀ key, key ∈ summary.keys ↔ ∃ f ∈ files, f.scopeKey = key
  /-- Under a key stand the paths of the files with the key, in their order. -/
  paths : ∀ entry ∈ summary.scopes,
    entry.2.files = (files.filter fun f => f.scopeKey = entry.1).map (·.path)
  types : ∀ entry ∈ summary.scopes,
    entry.2.types = (files.filter fun f => f.scopeKey = entry.1 ∧ f.error = none).flatMap (·.types)
  /-- Each file that could not be read gives one diagnostic, in their order. -/
  failures : List.Forall₂ (fun f d => f.error = some d.message ∧ d = .unreadFile f.path d.message)
    (files.filter (·.error.isSome)) diagnostics
  counted : summary.fileCount = files.length
  listed : summary.fileCount = (summary.scopes.map fun entry => entry.2.files.length).sum

theorem mem_scopes_aggregate {files : List FileSummary} {entry : Text × ScopeSummary}
    (h : entry ∈ (aggregate files).1.scopes) : entry.2 = .ofFiles (filesUnder entry.1 files) := by
  rw [scopes_aggregate] at h
  obtain ⟨key, -, rfl⟩ := List.mem_map.mp h
  rfl

theorem forall₂_failures (files : List FileSummary) :
    List.Forall₂ (fun f d => f.error = some d.message ∧ d = .unreadFile f.path d.message)
      (files.filter (·.error.isSome)) (files.filterMap readDiagnostic?) := by
  induction files with
  | nil => exact .nil
  | cons f files ih =>
    cases h : f.error with
    | none =>
      rw [List.filter_cons_of_neg (by simp [h]),
        List.filterMap_cons_none (by rw [readDiagnostic?, h]; rfl)]
      exact ih
    | some reason =>
      have told : readDiagnostic? f = some (.unreadFile f.path reason) := by
        rw [readDiagnostic?, h]; rfl
      rw [List.filter_cons_of_pos (by simp [h]), List.filterMap_cons_some told]
      exact .cons ⟨h, rfl⟩ ih

theorem groups_aggregate (files : List FileSummary) :
    Groups files (aggregate files).1 (aggregate files).2 where
  ascending := ascending_aggregate files
  keys key := by rw [keys_aggregate, keysOf, mem_sortedDistinct, List.mem_map]
  paths entry h := by rw [mem_scopes_aggregate h]; rfl
  types entry h := by
    rw [mem_scopes_aggregate h, ScopeSummary.ofFiles, filesUnder, List.filter_filter]
    refine congrArg (List.flatMap _) (List.filter_congr fun f _ => ?_)
    cases f.error <;> simp
  failures := forall₂_failures files
  counted := fileCount_aggregate files
  listed := by
    rw [← length_filesOf, fileCount_aggregate, ← List.length_map FileSummary.path]
    exact (foldl_add files .empty).1.length_eq.symm

end Scan

namespace Pattern

variable {σ : Type} [DecidableEq σ] {name : σ} {body : Pattern σ} {front back : List (Pattern σ)}
  {here there : Cursor} {e e' : Ending σ}

/-- A reading of patterns one after another reads each marked one of them where it marks it. -/
theorem Leads.exists_part
    (h : (all (front ++ Pattern.mark name body :: back)).Leads here e there e')
    (hf : ∀ p ∈ front, name ∉ p.marks) (hn : name ∉ body.marks) :
    ∃ first m last m', (Pattern.mark name body).Leads first m last m' ∧
      e.Marks name ⟨first, last⟩ := by
  induction front generalizing here e with
  | nil =>
    obtain ⟨mid, m, part, -⟩ := leads_all_cons.mp h
    exact ⟨here, e, mid, m, part, part.marks_mark hn⟩
  | cons p front ih =>
    rw [List.forall_mem_cons] at hf
    obtain ⟨mid, m, first, later⟩ := leads_all_cons.mp h
    obtain ⟨start, n, last, n', part, marks⟩ := ih later hf.2
    exact ⟨start, n, last, n', part, (first.marks_iff hf.1).mpr marks⟩

end Pattern

namespace Source

open Pattern

variable {language : Language} {t s : Text}

theorem avoids_scope :
    Avoids ['('] (mark .scope (seq (one isNameStart) (star (typeCharacter ['.']))) : Pattern Slot) ∧
      Avoids ['('] (mark .scope (seq identifier (star (seq (sign '.') identifier))) :
        Pattern Slot) := by
  have outside {accepts : Char → Bool} (h : accepts '(' = false) :
      Avoids ['('] (one accepts : Pattern Slot) := by
    refine avoids_one fun d hd hm => ?_
    rw [List.mem_singleton.mp hm, h] at hd
    exact absurd hd (by simp)
  have name : Avoids ['('] (identifier : Pattern Slot) :=
    (outside (by decide)).seq (outside (by decide)).star
  exact ⟨((outside (by decide)).seq (outside (by decide)).star).mark,
    (name.seq ((outside (by decide)).seq name).star).mark⟩

/-- The part of a declaration that tells the scope holds no parenthesis. -/
theorem parenthesis_notMem_of_leads {here there : Cursor} {e e' : Ending Slot}
    (h : language.declaration.Leads here e there e')
    (ht : (Match.mk here e).text? .scope = some s) : '(' ∉ s := by
  have told (front : List (Pattern Slot)) {body : Pattern Slot} {back : List (Pattern Slot)}
      (h : (all (front ++ mark .scope body :: back)).Leads here e there e')
      (hf : ∀ p ∈ front, Slot.scope ∉ p.marks)
      (hn : Slot.scope ∉ body.marks) (ha : Avoids ['('] (mark Slot.scope body)) : '(' ∉ s := by
    obtain ⟨first, m, last, m', part, marks⟩ := h.exists_part hf hn
    obtain ⟨w, hw, outside⟩ := ha part
    rw [Match.text?_of_marks marks hw (part.eq_beyond hw)] at ht
    exact fun inside => outside '(' (Option.some.inj ht ▸ inside) (List.mem_singleton_self _)
  cases language with
  | csharp =>
    exact told [blanks, literal "namespace".toList, someBlanks] h (by decide) (by decide)
      avoids_scope.1
  | java =>
    exact told [blanks, literal "package".toList, someBlanks] h (by decide) (by decide)
      avoids_scope.2

/-- The scope of a text is the marked part of a line that declares one. -/
theorem exists_run_of_scope? (h : language.scope? t = some s) :
    ∃ here e, language.declaration.run here stopHere = some e ∧
      (Match.mk here e).text? .scope = some s := by
  rw [scope?_eq, Option.join_eq_some_iff] at h
  obtain ⟨here, -, declared⟩ := List.exists_of_findSome?_eq_some h
  rw [Language.declaredAt] at declared
  split at declared
  · obtain ⟨e, read, scope⟩ := Option.map_eq_some_iff.mp declared
    exact ⟨here, e, read, scope⟩
  · exact absurd declared (by simp)

/-- No parenthesis stands in a scope that a text declares. -/
theorem parenthesis_notMem_scope (h : language.scope? t = some s) : '(' ∉ s := by
  obtain ⟨here, e, read, scope⟩ := exists_run_of_scope? h
  obtain ⟨there, e', -, leads⟩ := exists_leads_of_run read
  exact parenthesis_notMem_of_leads leads scope

/-- No blank stands in a scope that a text declares. -/
theorem solid_scope (h : language.scope? t = some s) : Solid s := by
  obtain ⟨here, e, read, scope⟩ := exists_run_of_scope? h
  obtain ⟨w, solid, told⟩ := (marksSolid_declaration language).text?_eq read
  rw [told] at scope
  exact Option.some.inj scope ▸ solid

/-- A parenthesis in the key tells that the text declares no scope. -/
theorem parenthesis_mem_scopeKey_iff (language : Language) (path t : Text) :
    '(' ∈ (summarize language path t).scopeKey ↔ (summarize language path t).scope = none := by
  rw [FileSummary.scopeKey]
  cases h : (summarize language path t).scope with
  | none =>
    have unnamed : '(' ∈ language.unnamedScope := by cases language <;> decide
    exact iff_of_true unnamed rfl
  | some s => exact iff_of_false (parenthesis_notMem_scope h) (by simp)

end Source

namespace Scan

open Source

/-- Files are grouped by scope without loss: those of two lists apart or together, every file once
under its key, with its types or with a diagnostic. And files that share a key both declare a scope
or both declare none. -/
theorem aggregate_lossless (a b : List FileSummary) :
    aggregate (a ++ b) = ((aggregate a).1.merge (aggregate b).1,
      (aggregate a).2 ++ (aggregate b).2) ∧
      Groups a (aggregate a).1 (aggregate a).2 ∧
      ∀ language path t language' path' t',
        (summarize language path t).scopeKey = (summarize language' path' t').scopeKey →
          ((summarize language path t).scope = none ↔
            (summarize language' path' t').scope = none) := by
  refine ⟨aggregate_append a b, groups_aggregate a,
    fun language path t language' path' t' shared => ?_⟩
  rw [← parenthesis_mem_scopeKey_iff, ← parenthesis_mem_scopeKey_iff, shared]

end Scan

end SourceSurvey
