import SourceSurvey.Proofs.LinesAbove

/-! Steps by offsets. A step by one offset may end inside of a character and is rounded up to the
next boundary, or down to the last one; a place of a text is told by its offset, which is a
boundary. So a text may be cut where a line begins and at any place, and whether an offset is inside
of an attribute is told from its line alone. -/

namespace SourceSurvey

namespace Text

variable {t : Text} {m n : Nat}

theorem isBoundary_iff : IsBoundary t n ↔ byteLength (takeBytes n t) = n := by
  constructor
  · rintro ⟨start, rest, rfl, rfl⟩
    rw [takeBytes_append]
  · intro h
    obtain ⟨rest, split⟩ := exists_takeBytes n t
    exact ⟨takeBytes n t, rest, split, h⟩

instance (t : Text) (n : Nat) : Decidable (IsBoundary t n) := decidable_of_iff _ isBoundary_iff.symm

theorem IsBoundary.le (h : IsBoundary t n) : n ≤ byteLength t := by
  obtain ⟨start, rest, rfl, rfl⟩ := h
  rw [byteLength_append]
  exact Nat.le_add_right ..

theorem isBoundary_zero (t : Text) : IsBoundary t 0 := ⟨[], t, rfl, rfl⟩

/-- The nearest offset, at least the given one, at which a character begins or the text ends; an
offset behind the end stays as it is. -/
def ceilBoundary (t : Text) (n : Nat) : Nat :=
  if n < byteLength t ∧ ¬IsBoundary t n then ceilBoundary t (n + 1) else n
termination_by byteLength t - n

/-- The boundary behind an offset, or an offset behind the end. -/
def nextBoundary (t : Text) (n : Nat) : Nat := ceilBoundary t (n + 1)

theorem le_ceilBoundary (t : Text) (n : Nat) : n ≤ ceilBoundary t n := by
  fun_induction ceilBoundary t n with
  | case1 n _ ih => omega
  | case2 n => exact Nat.le_refl n

theorem ceilBoundary_le (h : IsBoundary t m) (hn : n ≤ m) : ceilBoundary t n ≤ m := by
  fun_induction ceilBoundary t n with
  | case1 n inside ih =>
    have other : n ≠ m := fun he => inside.2 (he ▸ h)
    exact ih (by omega)
  | case2 n => exact hn

theorem isBoundary_ceilBoundary (t : Text) (n : Nat) :
    IsBoundary t (ceilBoundary t n) ∨ byteLength t < ceilBoundary t n := by
  fun_induction ceilBoundary t n with
  | case1 n _ ih => exact ih
  | case2 n outside =>
    rcases Nat.lt_trichotomy n (byteLength t) with less | rfl | more
    · exact .inl (by_contra fun inner => outside ⟨less, inner⟩)
    · exact .inl ⟨t, [], by simp, rfl⟩
    · exact .inr more

theorem lt_nextBoundary (t : Text) (n : Nat) : n < nextBoundary t n := le_ceilBoundary t (n + 1)

/-- No boundary is stepped over. -/
theorem nextBoundary_le_iff (h : IsBoundary t m) : nextBoundary t n ≤ m ↔ n < m :=
  ⟨fun hm => Nat.lt_of_lt_of_le (lt_nextBoundary t n) hm, fun hn => ceilBoundary_le h hn⟩

theorem isBoundary_nextBoundary (t : Text) (n : Nat) :
    IsBoundary t (nextBoundary t n) ∨ byteLength t < nextBoundary t n :=
      isBoundary_ceilBoundary t (n + 1)

end Text

open Text

namespace Cursor

variable {here : Cursor} {t w rest : Text}

theorem IsIn.isBoundary (h : here.IsIn t) : IsBoundary t here.offset :=
  ⟨here.before.reverse, here.rest, h.1.symm, h.2.symm⟩

theorem self_mem_placesFrom (here : Cursor) (t : Text) : here ∈ here.placesFrom t := by
  cases t <;> exact List.mem_cons_self

theorem beyond_mem_placesFrom (hr : here.rest = w ++ rest) :
    here.beyond w rest ∈ here.placesFrom (w ++ rest) := by
  induction w generalizing here with
  | nil =>
    subst hr
    exact self_mem_placesFrom here here.rest
  | cons c w ih =>
    have later : (here.past c (w ++ rest)).beyond w rest ∈ (here.past c (w ++ rest)).placesFrom
      (w ++ rest) := ih rfl
    rw [past_eq_beyond, beyond_beyond] at later
    exact List.mem_cons_of_mem here later

theorem mem_places_iff : here ∈ places t ↔ here.IsIn t := by
  refine ⟨isIn_of_mem_places, fun h => ?_⟩
  obtain ⟨split, offset⟩ := h
  have found :
      (ofText t).beyond here.before.reverse here.rest ∈ (ofText t).placesFrom
        (here.before.reverse ++ here.rest) :=
    beyond_mem_placesFrom split.symm
  have same : (ofText t).beyond here.before.reverse here.rest = here := by
    simp [beyond, ofText, ← offset]
  rwa [same, split] at found

end Cursor

namespace Source

variable {line : Text}

/-! ### The text of a line in front of an offset -/

/-- Whether an offset is inside of an attribute, told from the text of its line in front of it. It
fails where a text would be cut elsewhere than at boundaries. -/
def insideAttribute? (t : Text) (offset : Nat) : Option Bool := do
  let stop := floorBoundary t (min offset (byteLength t))
  let before ← slice? t 0 stop
  let line ← slice? t ((lastNewline? before).elim 0 (· + 1)) stop
  return line.getLast? = some '@' || 0 < line.foldl squareDepth 0

theorem endsInAttribute_append_line (h : '\n' ∉ line) (above : Text)
    (ha : above = [] ∨ above.getLast? = some '\n') :
    endsInAttribute (above ++ line).reverse =
      (line.getLast? = some '@' || 0 < line.foldl squareDepth 0) := by
  have other : ∀ c ∈ line.reverse, decide (c ≠ '\n') = true := fun c hc => by
    simpa using fun he : c = '\n' => h (he ▸ List.mem_reverse.mp hc)
  have stop : above.reverse.takeWhile (· ≠ '\n') = [] := by
    rcases ha with rfl | ha
    · rfl
    · obtain ⟨above, rfl⟩ := List.getLast?_eq_some_iff.mp ha
      rw [List.reverse_append]
      exact List.takeWhile_cons_of_neg (by simp)
  rw [endsInAttribute, List.reverse_append, List.takeWhile_append_of_pos other, stop,
    List.append_nil, List.head?_reverse, List.reverse_reverse]

/-- No cut fails on the way, whatever the offset is. -/
theorem insideAttribute?_eq (t : Text) (offset : Nat) :
    insideAttribute? t offset = some (insideAttribute t offset) := by
  obtain ⟨rest, split⟩ := exists_takeBytes offset t
  rw [insideAttribute?, floorBoundary_eq, takeBytes_min, insideAttribute, back]
  generalize takeBytes offset t = front at split ⊢
  subst split
  rw [slice?_zero, Option.bind_eq_bind, Option.bind_some]
  by_cases h : '\n' ∈ front
  · obtain ⟨above, line, rfl, hl⟩ := exists_last_line h
    have inside := endsInAttribute_append_line hl (above ++ ['\n']) (.inr (by simp))
    have part := slice?_append (above ++ ['\n']) line rest
    have start : byteLength (above ++ ['\n']) = byteLength above + 1 := by
      rw [byteLength_append]
      rfl
    simp only [start, List.append_assoc, List.cons_append, List.nil_append] at inside part
    rw [lastNewline?_append hl, Option.elim_some, List.append_assoc, List.cons_append, part, inside]
    rfl
  · have inside := endsInAttribute_append_line h [] (.inl rfl)
    rw [lastNewline?_of_notMem h, Option.elim_none, slice?_zero, ← List.nil_append front, inside]
    rfl

end Source

end SourceSurvey
