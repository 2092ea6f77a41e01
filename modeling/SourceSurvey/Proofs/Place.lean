import SourceSurvey.Proofs.Bytes
import SourceSurvey.Source.Place
import Mathlib.Data.List.Basic

/-! Lookups by offset. The line of an offset counts the newlines below it. The owner of an offset is
the last start that is not past it, and where the starts increase, the one whose interval up to the
next start holds the offset. -/

namespace SourceSurvey.Source

open Text

/-! ### Lines -/

theorem length_takeWhile_lineStartsFrom (base offset : Nat) (t : Text) :
    ((lineStartsFrom base t).takeWhile (· ≤ offset)).length = newlinesBefore t (offset - base) := by
  induction t generalizing base with
  | nil => simp [lineStartsFrom, newlinesBefore, encode]
  | cons c rest ih =>
    by_cases hc : c = '\n'
    · subst hc
      have hs : ('\n' : Char).utf8Size = 1 := by decide
      simp only [lineStartsFrom, hs, if_true, List.takeWhile_cons, decide_eq_true_eq]
      by_cases ho : base + 1 ≤ offset
      · have hn : offset - base = offset - (base + 1) + 1 := by omega
        rw [if_pos ho, List.length_cons, ih, hn, newlinesBefore_cons_newline]
      · have hz : offset - base = 0 := by omega
        rw [if_neg ho, hz]
        rfl
    · simp only [lineStartsFrom, if_neg hc]
      rw [ih, newlinesBefore_cons hc, Nat.sub_add_eq]

/-- The line of an offset, counted from one, is told by the newlines below the offset. -/
theorem lineOf_ofText (t : Text) (offset : Nat) :
    (LineTable.ofText t).lineOf offset = 1 + newlinesBefore t offset := by
  have h := length_takeWhile_lineStartsFrom 0 offset t
  rw [Nat.sub_zero] at h
  simp [LineTable.ofText, LineTable.lineOf, h, Nat.add_comm]

/-! ### Owners -/

/-- Where no element that satisfies `p` comes behind one that does not, the first ones are all. -/
theorem takeWhile_eq_filter {α : Type} {p : α → Bool} {l : List α}
    (h : l.Pairwise fun a b => p b = true → p a = true) : l.takeWhile p = l.filter p := by
  induction h with
  | nil => rfl
  | @cons a l ha _ ih =>
    by_cases hp : p a = true
    · rw [List.takeWhile_cons_of_pos hp, List.filter_cons_of_pos hp, ih]
    · rw [List.takeWhile_cons_of_neg hp, List.filter_cons_of_neg hp]
      exact (List.filter_eq_nil_iff.mpr fun b hb hpb => hp (ha b hb hpb)).symm

/-- The last element of an ordered list is the one that no other comes behind. -/
theorem getLast?_eq_some_iff_of_pairwise {α : Type} {before : α → α → Prop} {l : List α}
    (h : l.Pairwise before) (refl : ∀ a, before a a)
    (antisymm : ∀ a b, before a b → before b a → a = b) (a : α) :
    l.getLast? = some a ↔ a ∈ l ∧ ∀ b ∈ l, before b a := by
  have last {c : α} (hc : l.getLast? = some c) : c ∈ l ∧ ∀ b ∈ l, before b c := by
    obtain ⟨start, rfl⟩ := List.getLast?_eq_some_iff.mp hc
    refine ⟨by simp, fun b hb => ?_⟩
    rcases List.mem_append.mp hb with hb | hb
    · exact (List.pairwise_append.mp h).2.2 b hb c (by simp)
    · rw [List.mem_singleton.mp hb]
      exact refl c
  constructor
  · exact last
  · rintro ⟨ha, hb⟩
    obtain ⟨c, hc⟩ : ∃ c, l.getLast? = some c :=
      Option.isSome_iff_exists.mp (List.getLast?_isSome.mpr (List.ne_nil_of_mem ha))
    obtain ⟨hm, hl⟩ := last hc
    rw [hc, antisymm c a (hb c hm) (hl a ha)]

namespace Ownership

theorem startsBefore_iff (a b : Nat × Nat) :
    startsBefore a b = true ↔ a.1 < b.1 ∨ a.1 = b.1 ∧ a.2 ≤ b.2 := by
  simp [startsBefore]

theorem mem_starts_ofStarts {starts : List Nat} {s i : Nat} :
    (s, i) ∈ (ofStarts starts).starts ↔ starts[i]? = some s := by
  rw [ofStarts, List.mem_mergeSort, List.mk_mem_zipIdx_iff_getElem?]

theorem pairwise_starts_ofStarts (starts : List Nat) :
    (ofStarts starts).starts.Pairwise fun a b => startsBefore a b = true := by
  apply List.pairwise_mergeSort
  · intro a b c hab hbc
    rw [startsBefore_iff] at hab hbc ⊢
    omega
  · intro a b
    rw [Bool.or_eq_true, startsBefore_iff, startsBefore_iff]
    omega

/-- The entries that a lookup reads are the ones not past the offset. -/
theorem takeWhile_starts_ofStarts (starts : List Nat) (offset : Nat) :
    (ofStarts starts).starts.takeWhile (·.1 ≤ offset) =
      (ofStarts starts).starts.filter (·.1 ≤ offset) := by
  refine takeWhile_eq_filter ((pairwise_starts_ofStarts starts).imp fun {a b} hab hb => ?_)
  rw [startsBefore_iff] at hab
  simp only [decide_eq_true_eq] at hb ⊢
  omega

/-- An offset has no owner when every start is past it. -/
theorem ownerOf?_eq_none_iff (starts : List Nat) (offset : Nat) :
    (ofStarts starts).ownerOf? offset = none ↔ ∀ s ∈ starts, offset < s := by
  rw [ownerOf?, takeWhile_starts_ofStarts, Option.map_eq_none_iff, List.getLast?_eq_none_iff,
    List.filter_eq_nil_iff]
  simp only [decide_eq_true_eq, Nat.not_le]
  constructor
  · intro h s hs
    obtain ⟨i, hi⟩ := List.mem_iff_getElem?.mp hs
    exact h (s, i) (mem_starts_ofStarts.mpr hi)
  · rintro h ⟨s, i⟩ hs
    exact h s (List.mem_iff_getElem?.mpr ⟨i, mem_starts_ofStarts.mp hs⟩)

/-- The owner of an offset has the greatest start that is not past it, and among equal starts the
greatest index. -/
theorem ownerOf?_eq_some_iff (starts : List Nat) (offset i : Nat) :
    (ofStarts starts).ownerOf? offset = some i ↔
      ∃ s, starts[i]? = some s ∧ s ≤ offset ∧
        ∀ j s', starts[j]? = some s' → s' ≤ offset → s' < s ∨ s' = s ∧ j ≤ i := by
  have last := fun a => getLast?_eq_some_iff_of_pairwise
    ((pairwise_starts_ofStarts starts).filter (·.1 ≤ offset)) (fun a => by simp [startsBefore_iff])
    (fun a b hab hba => by
      rw [startsBefore_iff] at hab hba
      exact Prod.ext (by omega) (by omega)) a
  rw [ownerOf?, takeWhile_starts_ofStarts, Option.map_eq_some_iff]
  constructor
  · rintro ⟨⟨s, j⟩, hl, rfl⟩
    obtain ⟨hm, hb⟩ := (last _).mp hl
    rw [List.mem_filter, mem_starts_ofStarts, decide_eq_true_eq] at hm
    refine ⟨s, hm.1, hm.2, fun k s' hs' ho => ?_⟩
    have hk := hb (s', k) (List.mem_filter.mpr ⟨mem_starts_ofStarts.mpr hs', by simpa using ho⟩)
    rwa [startsBefore_iff] at hk
  · rintro ⟨s, hs, ho, hg⟩
    refine ⟨(s, i), (last _).mpr ⟨?_, fun ⟨s', j⟩ hm => ?_⟩, rfl⟩
    · exact List.mem_filter.mpr ⟨mem_starts_ofStarts.mpr hs, by simpa using ho⟩
    · rw [List.mem_filter, mem_starts_ofStarts, decide_eq_true_eq] at hm
      exact (startsBefore_iff _ _).mpr (hg j s' hm.1 hm.2)

section Increasing

variable {starts : List Nat} (h : starts.Pairwise (· < ·))
include h

theorem lt_of_getElem? {i j a b : Nat} (ha : starts[i]? = some a) (hb : starts[j]? = some b)
    (hij : i < j) :
    a < b := by
  obtain ⟨hi, rfl⟩ := List.getElem?_eq_some_iff.mp ha
  obtain ⟨hj, rfl⟩ := List.getElem?_eq_some_iff.mp hb
  exact List.pairwise_iff_getElem.mp h i j hi hj hij

/-- Where the starts increase, an owner holds the offsets from its start to the next one. -/
theorem ownerOf?_eq_some_iff_of_increasing (offset i : Nat) :
    (ofStarts starts).ownerOf? offset = some i ↔
      ∃ s, starts[i]? = some s ∧ s ≤ offset ∧ ∀ next, starts[i + 1]? = some next →
        offset < next := by
  rw [ownerOf?_eq_some_iff]
  constructor
  · rintro ⟨s, hs, ho, hg⟩
    refine ⟨s, hs, ho, fun next hn => ?_⟩
    have hlt := lt_of_getElem? h hs hn (by omega)
    by_contra hle
    have := hg (i + 1) next hn (by omega)
    omega
  · rintro ⟨s, hs, ho, hg⟩
    refine ⟨s, hs, ho, fun j s' hs' ho' => ?_⟩
    rcases Nat.lt_trichotomy j i with hj | rfl | hj
    · exact .inl (lt_of_getElem? h hs' hs hj)
    · exact .inr ⟨Option.some.inj (hs'.symm.trans hs), Nat.le_refl _⟩
    · -- a start behind this one begins at or behind the next one, so it is past the offset
      obtain ⟨hlen, -⟩ := List.getElem?_eq_some_iff.mp hs'
      have hn : starts[i + 1]? = some starts[i + 1] := List.getElem?_eq_getElem (by omega)
      have hlt := hg _ hn
      rcases Nat.lt_or_ge (i + 1) j with hij | hij
      · have := lt_of_getElem? h hn hs' hij
        omega
      · obtain rfl : j = i + 1 := by omega
        rw [hn, Option.some.injEq] at hs'
        omega

/-- Where the starts increase, a later offset has no earlier owner. -/
theorem ownerOf?_mono {a b i j : Nat} (hab : a ≤ b) (hi : (ofStarts starts).ownerOf? a = some i)
    (hj : (ofStarts starts).ownerOf? b = some j) : i ≤ j := by
  obtain ⟨s, hs, hsa, -⟩ := (ownerOf?_eq_some_iff ..).mp hi
  obtain ⟨s', hs', -, hg⟩ := (ownerOf?_eq_some_iff ..).mp hj
  rcases Nat.lt_or_ge j i with hji | hij
  · have hlt := lt_of_getElem? h hs' hs hji
    have := hg i s hs (by omega)
    omega
  · exact hij

end Increasing

end Ownership

end SourceSurvey.Source
