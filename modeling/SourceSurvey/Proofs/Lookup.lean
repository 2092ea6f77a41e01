import SourceSurvey.Proofs.Place

/-! Lookups by halving. A list parts at a place if the elements in front of the place satisfy a
condition and no other does. A list has at most one such place, and halving finds it. The tables of
a source text are sorted, so they part at every offset, and a search by halving tells the owner and
the line that a count of all starts and newlines tells. -/

namespace SourceSurvey

/-! ### The place at which a list parts -/

section Parting

variable {α : Type} {p : α → Bool} {l : List α} {m n low high : Nat}

/-- The elements of a list in front of a place satisfy a condition, and no other does. -/
structure PartsAt (p : α → Bool) (l : List α) (n : Nat) : Prop where
  le_length : n ≤ l.length
  holds_iff : ∀ i a, l[i]? = some a → (p a = true ↔ i < n)

/-- The place at which a list parts, looked for between two places by halving the stretch. -/
def partingWithin (p : α → Bool) (l : List α) (low high : Nat) : Nat :=
  if low < high then
    let middle := (low + high) / 2
    if l[middle]?.any p then partingWithin p l (middle + 1) high else partingWithin p l low middle
  else low
termination_by high - low

/-- The place at which a list parts. -/
def partingPoint (p : α → Bool) (l : List α) : Nat := partingWithin p l 0 l.length

/-- Where no element that satisfies the condition comes behind one that does not, a list parts
behind the first ones. -/
theorem partsAt_takeWhile (h : l.Pairwise fun a b => p b = true → p a = true) :
    PartsAt p l (l.takeWhile p).length := by
  induction h with
  | nil => exact ⟨Nat.le_refl _, fun i a hi => by simp at hi⟩
  | @cons b l hb _ ih =>
    by_cases hp : p b = true
    · rw [List.takeWhile_cons_of_pos hp, List.length_cons]
      refine ⟨Nat.succ_le_succ ih.le_length, fun i a hi => ?_⟩
      cases i with
      | zero =>
        obtain rfl : b = a := by simpa using hi
        exact iff_of_true hp (Nat.zero_lt_succ _)
      | succ i => rw [ih.holds_iff i a (by simpa using hi), Nat.succ_lt_succ_iff]
    · rw [List.takeWhile_cons_of_neg hp, List.length_nil]
      refine ⟨Nat.zero_le _, fun i a hi => iff_of_false ?_ (Nat.not_lt_zero i)⟩
      rcases List.mem_cons.mp (List.mem_of_getElem? hi) with rfl | ha
      · exact hp
      · exact fun hpa => hp (hb a ha hpa)

/-- Halving keeps the place between the two ends of the stretch. -/
theorem PartsAt.partingWithin_eq (h : PartsAt p l n) (hl : low ≤ n) (hn : n ≤ high)
    (hh : high ≤ l.length) :
    partingWithin p l low high = n := by
  fun_induction partingWithin p l low high with
  | case1 low high hlt middle hp ih =>
    obtain ⟨a, ha, hpa⟩ := (Option.any_eq_true ..).mp hp
    have := (h.holds_iff middle a ha).mp hpa
    exact ih (by omega) hn hh
  | case2 low high hlt middle hp ih =>
    have here : l[middle]? = some l[middle] := List.getElem?_eq_getElem (by omega)
    have behind : ¬middle < n :=
      fun hm => hp (by rw [here]; exact (h.holds_iff middle _ here).mpr hm)
    exact ih hl (by omega) (by omega)
  | case3 low high hlt => omega

theorem PartsAt.partingPoint_eq (h : PartsAt p l n) : partingPoint p l = n :=
  h.partingWithin_eq (Nat.zero_le n) h.le_length (Nat.le_refl _)

end Parting

namespace Source

open Text

/-! ### Tables -/

/-- The index in the last entry that is not past an offset, found by halving the table. -/
def Ownership.ownerByHalving? (o : Ownership) (offset : Nat) : Option Nat :=
  match partingPoint (·.1 ≤ offset) o.starts with
  | 0 => none
  | n + 1 => o.starts[n]?.map (·.2)

/-- The number of line starts that are not past an offset, found by halving the table. -/
def LineTable.lineByHalving (table : LineTable) (offset : Nat) : Nat :=
  partingPoint (· ≤ offset) table.starts

theorem Ownership.ownerByHalving?_ofStarts (starts : List Nat) (offset : Nat) :
    (ofStarts starts).ownerByHalving? offset = (ofStarts starts).ownerOf? offset := by
  have parts :
      PartsAt (·.1 ≤ offset) (ofStarts starts).starts
        ((ofStarts starts).starts.takeWhile (·.1 ≤ offset)).length := by
    refine partsAt_takeWhile ((pairwise_starts_ofStarts starts).imp fun {a b} hab hb => ?_)
    rw [startsBefore_iff] at hab
    simp only [decide_eq_true_eq] at hb ⊢
    omega
  have front :=
    List.prefix_iff_eq_take.mp
      (List.takeWhile_prefix (·.1 ≤ offset) (l := (ofStarts starts).starts))
  rw [ownerByHalving?, parts.partingPoint_eq, ownerOf?, List.getLast?_eq_getElem?]
  cases hn : ((ofStarts starts).starts.takeWhile (·.1 ≤ offset)).length with
  | zero => rw [List.length_eq_zero_iff.mp hn]; rfl
  | succ n =>
    rw [hn] at front
    rw [front, List.getElem?_take_of_lt (by omega)]
    rfl

theorem lt_of_mem_lineStartsFrom {t : Text} {base start : Nat} (h : start ∈ lineStartsFrom base t) :
    base < start := by
  induction t generalizing base with
  | nil => exact absurd h List.not_mem_nil
  | cons c t ih =>
    have size := c.utf8Size_pos
    rw [lineStartsFrom] at h
    split at h
    · rcases List.mem_cons.mp h with rfl | h
      · omega
      · have := ih h; omega
    · have := ih h; omega

theorem pairwise_lineStartsFrom (base : Nat) (t : Text) :
    (lineStartsFrom base t).Pairwise (· < ·) := by
  induction t generalizing base with
  | nil => exact .nil
  | cons c t ih =>
    rw [lineStartsFrom]
    split
    · exact .cons (fun _ h => lt_of_mem_lineStartsFrom h) (ih _)
    · exact ih _

theorem LineTable.lineByHalving_ofText (t : Text) (offset : Nat) :
    (LineTable.ofText t).lineByHalving offset = (LineTable.ofText t).lineOf offset := by
  have sorted : (LineTable.ofText t).starts.Pairwise (· < ·) :=
    .cons (fun _ h => lt_of_mem_lineStartsFrom h) (pairwise_lineStartsFrom 0 t)
  refine (partsAt_takeWhile (sorted.imp fun {a b} hab hb => ?_)).partingPoint_eq
  simp only [decide_eq_true_eq] at hb ⊢
  omega

/-- The owner of an offset is the last of the greatest starts that are not past it, if there is one,
and its line counts the newlines below it; and so it is told by halving the tables. -/
theorem lookups_linear (starts : List Nat) (t : Text) (offset : Nat) :
    ((Ownership.ofStarts starts).ownerOf? offset = none ↔ ∀ s ∈ starts, offset < s) ∧
      (∀ i, (Ownership.ofStarts starts).ownerOf? offset = some i ↔
        ∃ s, starts[i]? = some s ∧ s ≤ offset ∧
          ∀ j s', starts[j]? = some s' → s' ≤ offset → s' < s ∨ s' = s ∧ j ≤ i) ∧
      (LineTable.ofText t).lineOf offset = 1 + ((encode t).take offset).count newlineByte ∧
      (Ownership.ofStarts starts).ownerByHalving? offset =
        (Ownership.ofStarts starts).ownerOf? offset ∧
      (LineTable.ofText t).lineByHalving offset = (LineTable.ofText t).lineOf offset :=
  ⟨Ownership.ownerOf?_eq_none_iff starts offset, Ownership.ownerOf?_eq_some_iff starts offset,
    lineOf_ofText t offset,
    Ownership.ownerByHalving?_ofStarts starts offset, LineTable.lineByHalving_ofText t offset⟩

end Source

end SourceSurvey
