import SourceSurvey.Scan.Diagnostic

/-! The order of texts and of diagnostics. Texts are ordered by their code points, so two texts that
stand on both sides of one another are one text. Diagnostics are ordered by path, stage and message;
that is a total preorder, and a sorted list holds what it was sorted from. -/

namespace SourceSurvey

namespace Text

theorem le_total (s t : Text) : (le s t || le t s) = true := by
  induction s generalizing t with
  | nil => rfl
  | cons a s ih =>
    cases t with
    | nil => rfl
    | cons b t =>
      by_cases hab : a = b
      · subst hab
        simpa [le] using ih t
      · have apart : a.toNat ≠ b.toNat := fun h => hab (Char.toNat_inj.mp h)
        simp only [le, if_neg hab, if_neg (Ne.symm hab), Bool.or_eq_true, decide_eq_true_eq]
        omega

theorem le_trans {s t u : Text} (hst : le s t = true) (htu : le t u = true) : le s u = true := by
  induction s generalizing t u with
  | nil => rfl
  | cons a s ih =>
    cases t with
    | nil => exact absurd hst (by simp [le])
    | cons b t =>
      cases u with
      | nil => exact absurd htu (by simp [le])
      | cons c u =>
        simp only [le] at hst htu ⊢
        by_cases hab : a = b
        · subst hab
          rw [if_pos rfl] at hst
          by_cases hac : a = c
          · rw [if_pos hac] at htu ⊢
            exact ih hst htu
          · rwa [if_neg hac] at htu ⊢
        · rw [if_neg hab, decide_eq_true_eq] at hst
          by_cases hbc : b = c
          · subst hbc
            rw [if_neg hab, decide_eq_true_eq]
            exact hst
          · rw [if_neg hbc, decide_eq_true_eq] at htu
            have hac : a ≠ c := by
              rintro rfl
              omega
            rw [if_neg hac, decide_eq_true_eq]
            omega

theorem le_antisymm {s t : Text} (hst : le s t = true) (hts : le t s = true) : s = t := by
  induction s generalizing t with
  | nil =>
    cases t with
    | nil => rfl
    | cons b t => exact absurd hts (by simp [le])
  | cons a s ih =>
    cases t with
    | nil => exact absurd hst (by simp [le])
    | cons b t =>
      by_cases hab : a = b
      · subst hab
        simp only [le, if_true] at hst hts
        rw [ih hst hts]
      · simp only [le, if_neg hab, if_neg (Ne.symm hab), decide_eq_true_eq] at hst hts
        omega

end Text

namespace Scan.Diagnostic

open Text

theorem eq_of_rank {s t : Stage} (h : s.rank = t.rank) : s = t := by
  revert h
  cases s <;> cases t <;> decide

/-- Diagnostics are ordered by the first of path, stage and message in which they differ. -/
theorem le_iff (a b : Diagnostic) : le a b = true ↔
    (a.path ≠ b.path ∧ Text.le a.path b.path = true) ∨
      a.path = b.path ∧ (a.stage.rank < b.stage.rank ∨
        a.stage.rank = b.stage.rank ∧ Text.le a.message b.message = true) := by
  rw [le]
  by_cases hp : a.path = b.path
  · by_cases hs : a.stage = b.stage
    · simp [hp, hs]
    · have apart : a.stage.rank ≠ b.stage.rank := fun h => hs (eq_of_rank h)
      simp [hp, hs, apart, Nat.le_iff_lt_or_eq]
  · simp [hp]

theorem le_total (a b : Diagnostic) : (le a b || le b a) = true := by
  rw [Bool.or_eq_true, le_iff, le_iff]
  by_cases hp : a.path = b.path
  · rcases Nat.lt_trichotomy a.stage.rank b.stage.rank with hs | hs | hs
    · exact .inl (.inr ⟨hp, .inl hs⟩)
    · rcases Bool.or_eq_true _ _ ▸ Text.le_total a.message b.message with hm | hm
      · exact .inl (.inr ⟨hp, .inr ⟨hs, hm⟩⟩)
      · exact .inr (.inr ⟨hp.symm, .inr ⟨hs.symm, hm⟩⟩)
    · exact .inr (.inr ⟨hp.symm, .inl hs⟩)
  · rcases Bool.or_eq_true _ _ ▸ Text.le_total a.path b.path with ht | ht
    · exact .inl (.inl ⟨hp, ht⟩)
    · exact .inr (.inl ⟨Ne.symm hp, ht⟩)

theorem le_trans (a b c : Diagnostic) (hab : le a b = true)
    (hbc : le b c = true) : le a c = true := by
  rw [le_iff] at hab hbc ⊢
  rcases hab with ⟨hp, hab⟩ | ⟨hp, hab⟩
  · rcases hbc with ⟨hq, hbc⟩ | ⟨hq, -⟩
    · refine .inl ⟨fun hac => ?_, Text.le_trans hab hbc⟩
      rw [← hac] at hbc
      exact hp (Text.le_antisymm hab hbc)
    · exact .inl (hq ▸ ⟨hp, hab⟩)
  · rcases hbc with ⟨hq, hbc⟩ | ⟨hq, hbc⟩
    · exact .inl (hp ▸ ⟨hq, hbc⟩)
    · refine .inr ⟨hp.trans hq, ?_⟩
      rcases hab with hs | ⟨hs, hm⟩
      · rcases hbc with ht | ⟨ht, -⟩
        · exact .inl (Nat.lt_trans hs ht)
        · exact .inl (ht ▸ hs)
      · rcases hbc with ht | ⟨ht, hn⟩
        · exact .inl (hs ▸ ht)
        · exact .inr ⟨hs.trans ht, Text.le_trans hm hn⟩

theorem pairwise_sort (ds : List Diagnostic) : (sort ds).Pairwise fun a b => le a b = true :=
  List.pairwise_mergeSort le_trans le_total ds

theorem sort_perm (ds : List Diagnostic) : (sort ds).Perm ds := List.mergeSort_perm ds le

theorem path_eq_of_le {a b : Diagnostic} (hab : le a b = true) (hba : le b a = true) :
    a.path = b.path := by
  rw [le_iff] at hab hba
  rcases hab with ⟨-, hab⟩ | ⟨hab, -⟩
  · rcases hba with ⟨-, hba⟩ | ⟨hba, -⟩
    · exact Text.le_antisymm hab hba
    · exact hba.symm
  · exact hab

end Scan.Diagnostic

end SourceSurvey
