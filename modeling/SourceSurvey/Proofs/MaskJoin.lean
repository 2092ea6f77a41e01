import SourceSurvey.Proofs.MaskLines

/-! Masking part by part. A character that begins no sign in any text is kept in code whatever
follows it, and a text behind which code goes on is masked alone, if what follows it ends no sign
that its last character may begin. So a header that is put together of words, brackets and blanks
around such a text is masked piece by piece. -/

namespace SourceSurvey.Source

open Text

variable {language : Language} {here : Standing} {c : Char} {a b t : Text}

/-! ### Characters that begin no sign -/

/-- A character with which no comment and no literal begins. -/
def Inert (language : Language) (c : Char) : Prop :=
  c ∉ ['/', '"', '\''] ∧ language.verbatimMark ≠ some c

instance (language : Language) (c : Char) : Decidable (Inert language c) :=
  inferInstanceAs (Decidable (_ ∧ _))

theorem Inert.opening?_eq (h : Inert language c)
    (rest : Text) : opening? language c rest = none := by
  obtain ⟨hc, hv⟩ := h
  simp only [List.mem_cons, List.not_mem_nil, or_false, not_or] at hc
  simp [opening?, hc, hv]

theorem inert_of_isWord (hc : isWord c = true) : Inert language c := by
  have other : ∀ d, isWord d = false → c ≠ d := fun d hd he => by
    rw [he, hd] at hc
    exact absurd hc (by simp)
  refine ⟨?_, ?_⟩
  · simp [other '/' (by decide), other '"' (by decide), other '\'' (by decide)]
  · cases language with
    | csharp => simpa [Language.verbatimMark] using (other '@' (by decide)).symm
    | java => simp [Language.verbatimMark]

theorem inert_of_isBlank (hc : isBlank c = true) : Inert language c := by
  have other : ∀ d, isBlank d = false → c ≠ d := fun d hd he => by
    rw [he, hd] at hc
    exact absurd hc (by simp)
  refine ⟨?_, ?_⟩
  · simp [other '/' (by decide), other '"' (by decide), other '\'' (by decide)]
  · cases language with
    | csharp => simpa [Language.verbatimMark] using (other '@' (by decide)).symm
    | java => simp [Language.verbatimMark]

/-- A text of such characters is kept in front of any other. -/
theorem mask_inert_append (h : ∀ c ∈ a, Inert language c) (b : Text) :
    mask language (a ++ b) = a ++ mask language b := by
  induction a with
  | nil => rfl
  | cons c a ih =>
    have opens := (h c List.mem_cons_self).opening?_eq (a ++ b)
    have keep : keeps language .code c (a ++ b) = true := by
      rw [keeps_code, opens]
      rfl
    have later := ih fun d hd => h d (List.mem_cons_of_mem c hd)
    rw [mask] at later ⊢
    rw [List.cons_append, maskFrom, if_pos keep, step_code, opens, Option.getD_none, later]
    rfl

/-! ### Texts behind which code goes on -/

/-- A text that ends no sign which was begun in front of it. -/
def EndsNoSign (b : Text) : Prop := ∀ c ∈ b.head?, c ∉ ['/', '*', '"', '$']

instance (b : Text) : Decidable (EndsNoSign b) := inferInstanceAs (Decidable (∀ c ∈ b.head?, _))

theorem EndsNoSign.opening?_eq (h : EndsNoSign b) :
    opening? language c b = opening? language c [] := by
  cases b with
  | nil => rfl
  | cons d b =>
    have hd := h d rfl
    simp only [List.mem_cons, List.not_mem_nil, or_false, not_or] at hd
    obtain ⟨slash, star, quote, dollar⟩ := hd
    simp [opening?, slash, star, quote, dollar]

theorem EndsNoSign.head?_ne (h : EndsNoSign b) : b.head? ≠ some '/' ∧ b.head? ≠ some '"' :=
  ⟨fun hb => h _ hb (by decide), fun hb => h _ hb (by decide)⟩

/-- A literal that is over behind the last character of a text does not end in a backslash. -/
theorem literalStep_eq_code {region : Region} {close : Char} (hr : region ≠ .code)
    (h : literalStep region close c [] = .code) (rest : Text) (hs : close ≠ '\\') :
    literalStep region close c rest = .code := by
  have ends : c = close := by
    by_contra hn
    simp only [literalStep, hn, ne_eq, not_true_eq_false, and_false, if_false] at h
    exact hr (congrArg Standing.region h)
  rw [literalStep, if_neg fun hc => hs (ends ▸ hc.1), if_pos ends]

/-- Where code goes on behind the last character of a text, it does so in front of such a text. -/
theorem EndsNoSign.step_eq (h : EndsNoSign b) (hc : step language here c [] = .code) :
    step language here c b = .code := by
  obtain ⟨owed, region⟩ := here
  cases owed with
  | succ owed => exact hc
  | zero =>
    cases region with
    | code =>
      simp only [step, h.opening?_eq] at hc ⊢
      exact hc
    | lineComment => exact hc
    | blockComment => simp [step, Standing.settled, Standing.code] at hc
    | verbatim => simpa [step, h.head?_ne.2] using hc
    | quoted => exact literalStep_eq_code (by decide) hc b (by decide)
    | character => exact literalStep_eq_code (by decide) hc b (by decide)

/-- In front of the last character of a text the scan sees nothing of what follows. -/
theorem EndsNoSign.sameAhead (h : EndsNoSign b) (hn : a ≠ []) : SameAhead a (a ++ b) := by
  obtain ⟨c, a, rfl⟩ := List.exists_cons_of_ne_nil hn
  refine ⟨fun s _ => Iff.rfl, ?_, by simp⟩
  cases a with
  | nil =>
    cases b with
    | nil => exact Iff.rfl
    | cons d b =>
      have quote : d ≠ '"' := fun hd => h.head?_ne.2 (congrArg some hd)
      simp [quote]
  | cons d a => exact Iff.rfl

/-- A text behind which code goes on is masked as it is without the one that follows. -/
theorem maskFrom_join (ha : standingAfter language here a = .code) (hb : EndsNoSign b) :
    maskFrom language here (a ++ b) = maskFrom language here a ++ mask language b := by
  induction a generalizing here with
  | nil =>
    obtain rfl : here = .code := ha
    rfl
  | cons c a ih =>
    rw [standingAfter] at ha
    have ahead : step language here c (a ++ b) = step language here c a ∧
        keeps language here c (a ++ b) = keeps language here c a := by
      cases a with
      | nil =>
          exact ⟨(hb.step_eq ha).trans ha.symm, by rw [List.nil_append, keeps, keeps,
            hb.opening?_eq]⟩
      | cons d a =>
        have same := hb.sameAhead (List.cons_ne_nil d a)
        exact ⟨same.step_eq.symm, same.keeps_eq.symm⟩
    rw [List.cons_append, maskFrom, maskFrom, ahead.1, ahead.2, ih ha, List.append_assoc]

end SourceSurvey.Source
