import SourceSurvey.Proofs.CSharpParameter
import Mathlib.Data.Nat.Find

/-! Where a default value begins. One depth counts the brackets of all three kinds in front of a
place, whether or not they match, and an equals sign at depth zero is a top sign. The depth of a
place is told by what stands in front of it alone, so a start of a text has the top signs of the
text that lie in it: in front of the first one there is none, and what is left of a parameter is not
cut again. -/

namespace SourceSurvey.Source

open Text CSharp

/-- The depth in front of a place of a text, over all kinds of brackets. -/
def bracketsAt (t : Text) (i : Nat) : Nat := (t.take i).foldl bracketDepth 0

/-- A place of a text where an equals sign stands at depth zero. -/
def IsTopSign (t : Text) (i : Nat) : Prop := t[i]? = some '=' ∧ bracketsAt t i = 0

variable {t : Text} {i n : Nat}

theorem isTopSign_take (h : i < n) : IsTopSign (t.take n) i ↔ IsTopSign t i := by
  rw [IsTopSign, IsTopSign, bracketsAt, bracketsAt, List.getElem?_take_of_lt h, List.take_take,
    Nat.min_eq_left h.le]

theorem beforeDefault?_eq_none_iff_isTopSign : beforeDefault? 0 t = none ↔ ∀ i, ¬IsTopSign t i := by
  rw [beforeDefault?_eq_none_iff]
  constructor
  · rintro h i ⟨sign, depth⟩
    exact h i (List.getElem?_eq_some_iff.mp sign).1 sign depth
  · exact fun h i _ sign depth => h i ⟨sign, depth⟩

theorem stripDefault_of_not_isTopSign (h : ∀ i, ¬IsTopSign t i) : stripDefault t = t := by
  rw [stripDefault, beforeDefault?_eq_none_iff_isTopSign.mpr h]

/-- The text in front of the first top sign. -/
theorem noDefault_take (sign : IsTopSign t i) (first : ∀ j < i, ¬IsTopSign t j) :
    NoDefault (t.take i) where
  closed := sign.2
  inside := by
    refine beforeDefault?_eq_none_iff_isTopSign.mpr fun j inner => ?_
    have bound : j < i := by
      have := (List.getElem?_eq_some_iff.mp inner.1).1
      rw [List.length_take] at this
      omega
    exact first j bound ((isTopSign_take bound).mp inner)

/-- The first top sign is where a text is cut. -/
theorem stripDefault_of_isTopSign (sign : IsTopSign t i) (first : ∀ j < i, ¬IsTopSign t j) :
    stripDefault t = trimEnd (t.take i) := by
  obtain ⟨bound, here⟩ := List.getElem?_eq_some_iff.mp sign.1
  have split : t = t.take i ++ '=' :: t.drop (i + 1) := by
    rw [← here, ← List.drop_eq_getElem_cons, List.take_append_drop]
  conv_lhs => rw [split]
  exact (noDefault_take sign first).stripDefault_append_cons _

/-- A text has no top sign, or a first one. -/
theorem exists_first_isTopSign (t : Text) :
    (∀ i, ¬IsTopSign t i) ∨ ∃ i, IsTopSign t i ∧ ∀ j < i, ¬IsTopSign t j := by
  classical
  by_cases h : ∃ i, IsTopSign t i
  · exact .inr ⟨Nat.find h, Nat.find_spec h, fun _ => Nat.find_min h⟩
  · exact .inl (not_exists.mp h)

/-- A text without top signs has none when blanks are taken from its end. -/
theorem beforeDefault?_trimEnd (h : beforeDefault? 0 t = none) :
    beforeDefault? 0 (trimEnd t) = none := by
  obtain ⟨b, split, -, -⟩ := exists_trimEnd t
  rw [split, beforeDefault?_append] at h
  exact (Option.or_eq_none_iff.mp h).1

theorem stripDefault_stripDefault (t : Text) : stripDefault (stripDefault t) = stripDefault t := by
  rcases exists_first_isTopSign t with none | ⟨i, sign, first⟩
  · rw [stripDefault_of_not_isTopSign none, stripDefault_of_not_isTopSign none]
  · have left := beforeDefault?_trimEnd (noDefault_take sign first).inside
    rw [stripDefault_of_isTopSign sign first, stripDefault, left]

/-- A parameter without its default value is the text in front of the first top sign, less the
blanks at its end, and all of the text where there is no top sign. Nothing is left to be cut, and a
default value that is put behind a text without top signs that ends at depth zero is cut off again,
whatever it is. -/
theorem stripDefault_exact (t : Text) :
    ((∀ i, ¬IsTopSign t i) → stripDefault t = t) ∧
      (∀ i, IsTopSign t i → (∀ j < i, ¬IsTopSign t j) → stripDefault t = trimEnd (t.take i)) ∧
      stripDefault (stripDefault t) = stripDefault t ∧
      ((∀ i, ¬IsTopSign t i) → bracketsAt t t.length = 0 →
        ∀ value, stripDefault (t ++ '=' :: value) = trimEnd t) := by
  refine ⟨stripDefault_of_not_isTopSign, fun i => stripDefault_of_isTopSign,
    stripDefault_stripDefault t, fun none closed value => ?_⟩
  rw [bracketsAt, List.take_length] at closed
  exact NoDefault.stripDefault_append_cons
    ⟨closed, beforeDefault?_eq_none_iff_isTopSign.mpr none⟩ value

example : stripDefault "Map<K, (V = int)> m) \t= (a = b)".toList =
    "Map<K, (V = int)> m)".toList := by decide

end SourceSurvey.Source
