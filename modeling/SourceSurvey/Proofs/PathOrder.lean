import SourceSurvey.Proofs.Order
import SourceSurvey.Path.Basic
import SourceSurvey.Scan.Discovery
import Mathlib.Data.List.Sort

/-! The order of paths, and lists in which every element stands once in its place. Paths are ordered
by their components, so paths that stand on both sides of one another have the same components,
however they are written. A list that is sorted and has lost its repeats is told by its members
alone. -/

namespace SourceSurvey

namespace Path

/-! ### Components -/

namespace Component

variable {a b c : Component}

theorem le_iff : a.le b = true ↔ a.rank < b.rank ∨ a.rank = b.rank ∧
    Text.le a.text b.text = true := by
  simp [le]

theorem eq_of_rank_of_text (hr : a.rank = b.rank) (ht : a.text = b.text) : a = b := by
  cases a <;> cases b <;> simp_all [rank, text]

theorem le_total (a b : Component) : a.le b = true ∨ b.le a = true := by
  rw [le_iff, le_iff]
  rcases Nat.lt_trichotomy a.rank b.rank with h | h | h
  · exact .inl (.inl h)
  · rcases Bool.or_eq_true _ _ ▸ Text.le_total a.text b.text with ht | ht
    · exact .inl (.inr ⟨h, ht⟩)
    · exact .inr (.inr ⟨h.symm, ht⟩)
  · exact .inr (.inl h)

theorem le_trans (hab : a.le b = true) (hbc : b.le c = true) : a.le c = true := by
  rw [le_iff] at *
  rcases hab with hab | ⟨hab, ht⟩
  · rcases hbc with hbc | ⟨hbc, -⟩
    · exact .inl (Nat.lt_trans hab hbc)
    · exact .inl (hbc ▸ hab)
  · rcases hbc with hbc | ⟨hbc, hu⟩
    · exact .inl (hab ▸ hbc)
    · exact .inr ⟨hab.trans hbc, Text.le_trans ht hu⟩

theorem le_antisymm (hab : a.le b = true) (hba : b.le a = true) : a = b := by
  rw [le_iff] at hab hba
  rcases hab with hab | ⟨hab, ht⟩
  · rcases hba with hba | ⟨hba, -⟩ <;> omega
  · rcases hba with hba | ⟨-, hu⟩
    · omega
    · exact eq_of_rank_of_text hab (Text.le_antisymm ht hu)

end Component

/-! ### Lists of components -/

theorem leComponents_cons (a b : Component) (as bs : List Component) :
    leComponents (a :: as) (b :: bs) = true ↔ (a = b ∧ leComponents as bs = true) ∨
      (a ≠ b ∧ a.le b = true) := by
  by_cases h : a = b <;> simp [leComponents, h]

theorem leComponents_total (as bs : List Component) :
    leComponents as bs = true ∨ leComponents bs as = true := by
  induction as generalizing bs with
  | nil => exact .inl rfl
  | cons a as ih =>
    cases bs with
    | nil => exact .inr rfl
    | cons b bs =>
      rw [leComponents_cons, leComponents_cons]
      by_cases h : a = b
      · rcases ih bs with hs | hs
        · exact .inl (.inl ⟨h, hs⟩)
        · exact .inr (.inl ⟨h.symm, hs⟩)
      · rcases Component.le_total a b with hc | hc
        · exact .inl (.inr ⟨h, hc⟩)
        · exact .inr (.inr ⟨Ne.symm h, hc⟩)

theorem leComponents_trans {as bs cs : List Component} (hab : leComponents as bs = true)
    (hbc : leComponents bs cs = true) : leComponents as cs = true := by
  induction as generalizing bs cs with
  | nil => rfl
  | cons a as ih =>
    cases bs with
    | nil => exact absurd hab (by simp [leComponents])
    | cons b bs =>
      cases cs with
      | nil => exact absurd hbc (by simp [leComponents])
      | cons c cs =>
        rw [leComponents_cons] at *
        rcases hab with ⟨rfl, hab⟩ | ⟨hne, hab⟩
        · rcases hbc with ⟨rfl, hbc⟩ | hbc
          · exact .inl ⟨rfl, ih hab hbc⟩
          · exact .inr hbc
        · rcases hbc with ⟨rfl, -⟩ | ⟨hne', hbc⟩
          · exact .inr ⟨hne, hab⟩
          · refine .inr ⟨?_, Component.le_trans hab hbc⟩
            rintro rfl
            exact hne (Component.le_antisymm hab hbc)

theorem leComponents_antisymm {as bs : List Component} (hab : leComponents as bs = true)
    (hba : leComponents bs as = true) : as = bs := by
  induction as generalizing bs with
  | nil =>
    cases bs with
    | nil => rfl
    | cons b bs => exact absurd hba (by simp [leComponents])
  | cons a as ih =>
    cases bs with
    | nil => exact absurd hab (by simp [leComponents])
    | cons b bs =>
      rw [leComponents_cons] at hab hba
      rcases hab with ⟨rfl, hab⟩ | ⟨hne, hab⟩
      · rcases hba with ⟨-, hba⟩ | ⟨hne, -⟩
        · rw [ih hab hba]
        · exact absurd rfl hne
      · rcases hba with ⟨rfl, -⟩ | ⟨-, hba⟩
        · exact absurd rfl hne
        · exact absurd (Component.le_antisymm hab hba) hne

/-! ### Paths -/

theorem le_total (a b : Text) : (le a b || le b a) = true := by
  rw [Bool.or_eq_true]
  exact leComponents_total _ _

theorem le_trans (a b c : Text) (hab : le a b = true) (hbc : le b c = true) : le a c = true :=
  leComponents_trans hab hbc

theorem components_eq_of_le {a b : Text} (hab : le a b = true) (hba : le b a = true) :
    components a = components b :=
  leComponents_antisymm hab hba

theorem le_of_components_eq {a b : Text} (h : components a = components b) : le a b = true := by
  rcases leComponents_total (components a) (components b) with hs | hs
  · exact hs
  · rw [le, h]
    exact h ▸ hs

/-- Whether a path comes before another one in component order; no path does that has the same
components. -/
def precedes (a b : Text) : Prop := le a b = true ∧ components a ≠ components b

instance : Std.Irrefl precedes := ⟨fun _ h => h.2 rfl⟩

instance : Std.Antisymm precedes :=
  ⟨fun _ _ hab hba => absurd (components_eq_of_le hab.1 hba.1) hab.2⟩

end Path

/-! ### Sorted lists without repeats -/

namespace Text

variable {α : Type} [DecidableEq α] {order : α → α → Bool} {l : List α}

@[simp] theorem mem_dropRepeats {a : α} : a ∈ dropRepeats l ↔ a ∈ l := by
  induction l with
  | nil => rfl
  | cons b l ih =>
    rw [dropRepeats, List.mem_cons, ← ih]
    cases dropRepeats l with
    | nil => simp
    | cons c kept =>
      by_cases h : b = c
      · subst h
        simp
      · simp [h]

/-- The order of a list whose repeats stand side by side is strict once they are dropped. -/
theorem pairwise_dropRepeats (h : l.Pairwise fun a b => order a b = true)
    (antisymm : ∀ a ∈ l, ∀ b ∈ l, order a b = true → order b a = true → a = b) :
    (dropRepeats l).Pairwise fun a b => order a b = true ∧ a ≠ b := by
  induction l with
  | nil => exact .nil
  | cons a l ih =>
    rw [List.pairwise_cons] at h
    have rest := ih h.2 fun b hb c hc => antisymm b (.tail _ hb) c (.tail _ hc)
    have members (b : α) : b ∈ dropRepeats l ↔ b ∈ l := mem_dropRepeats
    rw [dropRepeats]
    cases hk : dropRepeats l with
    | nil => exact List.pairwise_singleton _ _
    | cons b kept =>
      rw [hk] at rest members
      have hb : b ∈ l := (members b).mp List.mem_cons_self
      by_cases hab : a = b
      · simpa only [if_pos hab] using rest
      · simp only [if_neg hab]
        refine List.pairwise_cons.mpr ⟨fun c hc => ?_, rest⟩
        have hcl : c ∈ l := (members c).mp hc
        refine ⟨h.1 c hcl, ?_⟩
        rintro rfl
        -- an element between two equal ones is the same
        rcases List.mem_cons.mp hc with hc | hc
        · exact hab hc
        · exact hab
            (antisymm a (.head _) b (.tail _ hb) (h.1 b hb) ((List.pairwise_cons.mp rest).1 a hc).1)

section Sorted

variable (total : ∀ a b, (order a b || order b a) = true)
  (trans : ∀ a b c, order a b = true → order b c = true → order a c = true)

@[simp] theorem mem_sortedDistinct {a : α} : a ∈ sortedDistinct order l ↔ a ∈ l := by
  rw [sortedDistinct, mem_dropRepeats, List.mem_mergeSort]

include total trans in
theorem pairwise_sortedDistinct (antisymm : ∀ a ∈ l, ∀ b ∈ l, order a b = true →
    order b a = true → a = b) :
    (sortedDistinct order l).Pairwise fun a b => order a b = true ∧ a ≠ b := by
  refine pairwise_dropRepeats (List.pairwise_mergeSort trans total l) fun a ha b hb => ?_
  exact antisymm a (List.mem_mergeSort.mp ha) b (List.mem_mergeSort.mp hb)

end Sorted

end Text

/-! ### Descriptors -/

namespace Scan.FoundDescriptor

theorem le_iff (a b : FoundDescriptor) : le a b = true ↔
    Path.precedes a.path b.path ∨
      Path.components a.path = Path.components b.path ∧ a.ecosystem.le b.ecosystem = true := by
  rw [le, Path.precedes]
  by_cases h : Path.components a.path = Path.components b.path <;> simp [h]

theorem le_total (a b : FoundDescriptor) : (le a b || le b a) = true := by
  rw [Bool.or_eq_true, le_iff, le_iff]
  by_cases h : Path.components a.path = Path.components b.path
  · have either : a.ecosystem.le b.ecosystem = true ∨ b.ecosystem.le a.ecosystem = true := by
      cases a.ecosystem <;> cases b.ecosystem <;> decide
    rcases either with he | he
    · exact .inl (.inr ⟨h, he⟩)
    · exact .inr (.inr ⟨h.symm, he⟩)
  · rcases Path.leComponents_total (Path.components a.path) (Path.components b.path) with hp | hp
    · exact .inl (.inl ⟨hp, h⟩)
    · exact .inr (.inl ⟨hp, Ne.symm h⟩)

theorem le_trans (a b c : FoundDescriptor) (hab : le a b = true) (hbc : le b c = true) :
    le a c = true := by
  rw [le_iff] at *
  rcases hab with ⟨hab, hne⟩ | ⟨hab, he⟩
  · rcases hbc with ⟨hbc, -⟩ | ⟨hbc, -⟩
    · refine .inl ⟨Path.le_trans _ _ _ hab hbc, fun hac => hne ?_⟩
      exact Path.components_eq_of_le hab
        (Path.le_trans _ _ _ hbc (Path.le_of_components_eq hac.symm))
    · exact .inl ⟨Path.le_trans _ _ _ hab (Path.le_of_components_eq hbc), hbc ▸ hne⟩
  · rcases hbc with ⟨hbc, hne⟩ | ⟨hbc, hf⟩
    · exact .inl ⟨Path.le_trans _ _ _ (Path.le_of_components_eq hab) hbc, hab ▸ hne⟩
    · refine .inr ⟨hab.trans hbc, ?_⟩
      revert he hf
      cases a.ecosystem <;> cases b.ecosystem <;> cases c.ecosystem <;> decide

theorem eq_of_le {a b : FoundDescriptor} (hab : le a b = true) (hba : le b a = true)
    (h : Path.components a.path = Path.components b.path → a.path = b.path) : a = b := by
  rw [le_iff] at hab hba
  have same : Path.components a.path = Path.components b.path := by
    rcases hab with ⟨hab, -⟩ | ⟨hab, -⟩
    · rcases hba with ⟨hba, -⟩ | ⟨hba, -⟩
      · exact Path.components_eq_of_le hab hba
      · exact hba.symm
    · exact hab
  have ecosystem : a.ecosystem = b.ecosystem := by
    have le := hab.resolve_left fun hp => hp.2 same
    have ge := hba.resolve_left fun hp => hp.2 same.symm
    revert le ge
    cases a.ecosystem <;> cases b.ecosystem <;> simp [Ecosystem.le]
  obtain ⟨path, e⟩ := a
  obtain ⟨path', e'⟩ := b
  exact congrArg₂ FoundDescriptor.mk (h same) ecosystem

instance : Std.Irrefl fun a b : FoundDescriptor => Path.precedes a.path b.path :=
  ⟨fun _ h => h.2 rfl⟩

instance : Std.Antisymm fun a b : FoundDescriptor => Path.precedes a.path b.path :=
  ⟨fun _ _ hab hba => absurd (Path.components_eq_of_le hab.1 hba.1) hab.2⟩

end Scan.FoundDescriptor

end SourceSurvey
