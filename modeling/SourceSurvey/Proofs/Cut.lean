import SourceSurvey.Text.Basic
import Mathlib.Data.List.Infix

/-! Texts cut at a mark: behind one at the start, in front of one at the end, and at the first one
inside. -/

namespace SourceSurvey.Text

variable {s t u v x y : Text}

/-! ### Marks at the ends -/

theorem after?_eq_some_iff : after? s t = some u ↔ t = s ++ u := by
  induction s generalizing t with
  | nil => rw [after?, Option.some.injEq, List.nil_append]
  | cons c s ih =>
    cases t with
    | nil => simp [after?]
    | cons d t =>
      rw [after?, List.cons_append, List.cons.injEq, ← ih]
      split
      · next he => rw [eq_comm (a := d), and_iff_right he]
      · next hn => simp [Ne.symm hn]

theorem after?_eq_none_iff : after? s t = none ↔ ¬s <+: t := by
  rw [Option.eq_none_iff_forall_ne_some]
  simp only [ne_eq, after?_eq_some_iff, ← not_exists]
  exact not_congr (exists_congr fun _ => eq_comm)

theorem before?_eq_some_iff : before? s t = some u ↔ t = u ++ s := by
  rw [before?, Option.map_eq_some_iff]
  simp only [after?_eq_some_iff]
  constructor
  · rintro ⟨r, hr, rfl⟩
    rw [← List.reverse_reverse t, hr, List.reverse_append, List.reverse_reverse]
  · rintro rfl
    exact ⟨u.reverse, List.reverse_append, List.reverse_reverse u⟩

theorem before?_eq_none_iff : before? s t = none ↔ ¬s <:+ t := by
  rw [Option.eq_none_iff_forall_ne_some]
  simp only [ne_eq, before?_eq_some_iff, ← not_exists]
  exact not_congr (exists_congr fun _ => eq_comm)

/-! ### The first mark inside -/

/-- Where a text is cut stands the first of the marks in it. -/
theorem splitOnce?_eq_some (h : splitOnce? s t = some (u, v)) :
    t = u ++ (s ++ v) ∧ ∀ x y, t = x ++ (s ++ y) → u.length ≤ x.length := by
  induction t generalizing u with
  | nil =>
    obtain ⟨r, hr, he⟩ := Option.map_eq_some_iff.mp h
    obtain ⟨rfl, rfl⟩ := Prod.mk.inj he
    exact ⟨(after?_eq_some_iff (s := s)).mp hr, fun _ _ _ => Nat.zero_le _⟩
  | cons c t ih =>
    rw [splitOnce?] at h
    split at h
    · next r hr =>
      obtain ⟨rfl, rfl⟩ := Prod.mk.inj (Option.some.inj h)
      exact ⟨(after?_eq_some_iff (s := s)).mp hr, fun _ _ _ => Nat.zero_le _⟩
    · next hr =>
      obtain ⟨⟨left, right⟩, hs, he⟩ := Option.map_eq_some_iff.mp h
      obtain ⟨rfl, rfl⟩ := Prod.mk.inj he
      obtain ⟨split, first⟩ := ih hs
      refine ⟨by rw [split, List.cons_append], fun x y hx => ?_⟩
      cases x with
      | nil => exact absurd ⟨y, hx.symm⟩ (after?_eq_none_iff.mp hr)
      | cons d x => exact Nat.succ_le_succ (first x y (List.cons.inj hx).2)

theorem splitOnce?_eq_none_iff : splitOnce? s t = none ↔ ¬s <:+: t := by
  induction t with
  | nil =>
    rw [splitOnce?, Option.map_eq_none_iff, after?_eq_none_iff, List.infix_nil, List.prefix_nil]
  | cons c t ih =>
    rw [splitOnce?, List.infix_cons_iff, not_or, ← ih, ← after?_eq_none_iff]
    split
    · next hr => simp [hr]
    · next hr => simp [hr]

end SourceSurvey.Text
