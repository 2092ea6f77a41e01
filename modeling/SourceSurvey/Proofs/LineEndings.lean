import SourceSurvey.Proofs.BlankLines

/-! Line endings. A text with a carriage return in front of every newline has the summary of the
text, if no newline is all that stands between a word that opens a clause and the sign that ends it.
The masked text has one more blank in front of every newline, and one after the other, from the last
newline to the first, these blanks change nothing. -/

namespace SourceSurvey

open Text

/-- No newline is all that stands between a word that opens a clause and a sign that ends one. -/
def Language.Hangless (language : Language) (t : Text) : Prop :=
  ∀ n ∈ List.range t.length, t[n]? = some '\n' →
    ¬Source.Widening.Hangs language.clauseWords language.clauseEnds (t.take n) (t.drop (n + 1))

instance (language : Language) (t : Text) : Decidable (language.Hangless t) :=
  inferInstanceAs (Decidable (∀ n ∈ _, _))

namespace Source

variable {language : Language} {path x y t t' : Text}

theorem not_hangs_of_hangless (h : language.Hangless (x ++ '\n' :: y)) :
    ¬Widening.Hangs language.clauseWords language.clauseEnds x y := by
  have here := h x.length (by simp) (by simp)
  rwa [List.take_left, ← List.drop_drop, List.drop_left] at here

theorem Edged.head?_any {p : Char → Bool} (hp : ∀ c, isBlank c = true → p c = false)
    (h : Edged t t') (ht : t'.head?.any p = true) : t.head?.any p = true := by
  cases h with
  | nil => exact ht
  | newline hd _ _ =>
    rw [List.head?_cons, Option.any_some, hp _ hd] at ht
    exact absurd ht (by simp)
  | cons _ _ => exact ht

/-- Blanks in front of all the newlines of a text. -/
theorem summary_edged (h : Edged t t') (hg : language.Hangless (x ++ t)) :
    (View.blurred language).ofSummary (.ofMasked language path (x ++ t)) =
      (View.blurred language).ofSummary (.ofMasked language path (x ++ t')) := by
  induction h generalizing x with
  | nil => rfl
  | @newline d t t' hd hn h ih =>
    have signs : ∀ c, isBlank c = true → language.clauseEnds.contains c = false := fun c hc => by
      by_contra hm
      rw [Bool.not_eq_false, List.contains_iff_mem] at hm
      rw [Widening.noBlank_of_clauseEnds (fun _ => id) c hm] at hc
      exact absurd hc (by simp)
    have apart : ¬Widening.Hangs language.clauseWords language.clauseEnds x t' := fun hh =>
      not_hangs_of_hangless hg ⟨hh.1, h.head?_any signs hh.2⟩
    have later := ih (x := x ++ ['\n']) (by simpa using hg)
    have step : (View.shift (x.count '\n' + 1) ([d].count '\n')).ofSummary
        ((View.blurred language).ofSummary (.ofMasked language path (x ++ '\n' :: t'))) =
          (View.blurred language).ofSummary (.ofMasked language path (x ++ d :: '\n' :: t')) :=
      Widening.summary_eq ⟨x, d, t', hd⟩ apart
    have none : [d].count '\n' = 0 := List.count_eq_zero.mpr (by simpa using Ne.symm hn)
    rw [none, View.shift_zero, View.ofSummary_whole] at step
    rw [List.append_assoc, List.append_assoc] at later
    exact later.trans step
  | @cons c t t' _ _ ih =>
    have later := ih (x := x ++ [c]) (by simpa using hg)
    rwa [List.append_assoc, List.append_assoc] at later

/-- Carriage returns in front of the newlines of a text leave its summary as it is, up to blanks in
the texts of parameters and of their attributes in C#. -/
theorem summarize_returned (language : Language) (path t : Text)
    (h : language.Hangless (mask language t)) :
    (View.blurred language).ofSummary (summarize language path (returned t)) =
      (View.blurred language).ofSummary (summarize language path t) := by
  rw [summarize_eq, summarize_eq]
  exact (summary_edged (x := []) (edged_mask language t) h).symm

/-- A class with an attribute above it and a header on two lines. -/
theorem summarize_returned_class :
    let t :=
      "namespace N;\n[Serializable]\nclass A : B\n\x7b // first\n  void M(int x,\n    int y) \x7b \x7d\n\x7d\n".toList
    Language.Hangless .csharp (mask .csharp t) ∧
      (View.blurred .csharp).ofSummary (summarize .csharp [] (returned t)) =
        (View.blurred .csharp).ofSummary (summarize .csharp [] t) := by
  intro t
  have apart : Language.Hangless .csharp (mask .csharp t) := by decide +kernel
  exact ⟨apart, summarize_returned .csharp [] t apart⟩

/-- A base named like the word of a clause is lost where a carriage return follows it. -/
theorem summarize_returned_where :
    let t := "class A : B, where\n\x7b \x7d".toList
    (summarize .csharp [] t).types.map (·.baseTypes) = [[['B'], "where".toList]] ∧
      (summarize .csharp [] (returned t)).types.map (·.baseTypes) = [[['B']]] ∧
      (View.blurred .csharp).ofSummary (summarize .csharp [] (returned t)) ≠
        (View.blurred .csharp).ofSummary (summarize .csharp [] t) := by
  decide +kernel

end Source

end SourceSurvey
