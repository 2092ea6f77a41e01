import SourceSurvey.Text.Basic

/-! Tables from keys to values. `put` lets the latest value of a key stand and `putNew` the first.
-/

namespace SourceSurvey.Graph

/-- Keys with their values, each key once. -/
abbrev Table (α : Type) := List (Text × α)

namespace Table

variable {α : Type}

def get? (table : Table α) (key : Text) : Option α :=
  (table.find? fun entry => entry.1 = key).map (·.2)

def put (table : Table α) (key : Text) (value : α) : Table α :=
  match table with
  | [] => [(key, value)]
  | entry :: rest => if entry.1 = key then (key, value) :: rest else entry :: put rest key value

def putNew (table : Table α) (key : Text) (value : α) : Table α :=
  if (table.get? key).isSome then table else table.put key value

theorem get?_put_self (table : Table α) (key : Text) (value : α) :
    (table.put key value).get? key = some value := by
  induction table with
  | nil => simp [put, get?]
  | cons entry rest ih =>
    simp only [put]
    split
    · simp [get?]
    · rename_i h
      simpa [get?, h] using ih

theorem get?_put_of_ne (table : Table α) {key other : Text} (value : α) (h : other ≠ key) :
    (table.put key value).get? other = table.get? other := by
  induction table with
  | nil => simp [put, get?, Ne.symm h]
  | cons entry rest ih =>
    simp only [put]
    split
    · rename_i he
      simp [get?, he, Ne.symm h]
    · by_cases ho : entry.1 = other
      · simp [get?, ho]
      · simpa [get?, ho] using ih

theorem get?_put (table : Table α) (key other : Text) (value : α) :
    (table.put key value).get? other = if other = key then some value else table.get? other := by
  split
  · next h => rw [h, get?_put_self]
  · next h => exact get?_put_of_ne table value h

/-- A value that is there stays before a new one. -/
theorem get?_putNew (table : Table α) (key other : Text) (value : α) :
    (table.putNew key value).get? other = (table.get? other).or
      (if other = key then some value else none) := by
  rw [putNew]
  split
  · next taken =>
    obtain ⟨kept, h⟩ := Option.isSome_iff_exists.mp taken
    by_cases same : other = key
    · rw [same, h, Option.some_or]
    · rw [if_neg same, Option.or_none]
  · next free =>
    rw [get?_put]
    split
    · next same => rw [same, Option.not_isSome_iff_eq_none.mp free, Option.none_or]
    · exact (Option.or_none).symm

end Table

end SourceSurvey.Graph
