import SourceSurvey.Proofs.Clause
import SourceSurvey.Proofs.WordEnds

/-! Collapsed texts: words with one space between neighbours. A text is collapsed exactly if it is
written so, and such texts stay so when they are put together, directly or with one space in
between. So a text that lists tidy ones, those that are collapsed and not empty, is tidy. The only
blank in a collapsed text is the space, so it is all on one line. -/

namespace SourceSurvey.Text

variable {a b s t w sep : Text} {ws vs ts : List Text} {c : Char}

/-- The last one of some texts and the first one of others grow together. -/
theorem intercalate_glue (ws : List Text) (w v : Text) (vs : List Text) :
    sep.intercalate (ws ++ [w]) ++ sep.intercalate (v :: vs) = sep.intercalate
      (ws ++ [w ++ v] ++ vs) := by
  cases vs with
  | nil => rw [List.append_nil, intercalate_concat_append, List.intercalate_singleton]
  | cons u us =>
    rw [intercalate_append (by simp) (List.cons_ne_nil u us), intercalate_concat_append,
      List.intercalate_cons_of_ne_nil (List.cons_ne_nil u us)]
    simp only [List.append_assoc]

/-- Whether a text is its words with one space between neighbours. -/
def Collapsed (t : Text) : Prop := collapse t = t

theorem collapsed_intercalate_words (h : ∀ w ∈ ws, Solid w ∧ w ≠ []) :
    Collapsed ([' '].intercalate ws) := by
  rw [Collapsed, collapse, words_intercalate h]

theorem collapsed_iff : Collapsed t ↔ ∃ ws, (∀ w ∈ ws, Solid w ∧ w ≠ []) ∧
    t = [' '].intercalate ws := by
  constructor
  · exact fun h => ⟨words t, fun w hw => solid_of_mem_words hw, h.symm⟩
  · rintro ⟨ws, hw, rfl⟩
    exact collapsed_intercalate_words hw

theorem collapsed_collapse (t : Text) : Collapsed (collapse t) :=
  collapsed_intercalate_words fun _ hw => solid_of_mem_words hw

theorem collapsed_of_solid (h : Solid w) : Collapsed w := by
  by_cases hn : w = []
  · rw [hn]
    rfl
  · rw [Collapsed, collapse, words_solid h hn, List.intercalate_singleton]

namespace Collapsed

theorem append (ha : Collapsed a) (hb : Collapsed b) : Collapsed (a ++ b) := by
  obtain ⟨ws, hw, rfl⟩ := collapsed_iff.mp ha
  obtain ⟨vs, hv, rfl⟩ := collapsed_iff.mp hb
  rcases List.eq_nil_or_concat ws with rfl | ⟨ws, w, rfl⟩
  · exact hb
  cases vs with
  | nil => rwa [List.intercalate_nil, List.append_nil]
  | cons v vs =>
    rw [List.concat_eq_append] at hw ⊢
    rw [intercalate_glue]
    refine collapsed_intercalate_words fun u hu => ?_
    rw [List.append_assoc, List.mem_append, List.singleton_append, List.mem_cons] at hu
    have last := hw w (by simp)
    have first := hv v List.mem_cons_self
    rcases hu with hu | rfl | hu
    · exact hw u (List.mem_append_left [w] hu)
    · exact ⟨List.forall_mem_append.mpr ⟨last.1, first.1⟩, fun he =>
        last.2 (List.append_eq_nil_iff.mp he).1⟩
    · exact hv u (List.mem_cons_of_mem v hu)

/-- One space may stand between two collapsed texts that are not empty. -/
theorem spaced (ha : Collapsed a) (hb : Collapsed b) (hna : a ≠ []) (hnb : b ≠ []) :
    Collapsed (a ++ ' ' :: b) := by
  obtain ⟨ws, hw, rfl⟩ := collapsed_iff.mp ha
  obtain ⟨vs, hv, rfl⟩ := collapsed_iff.mp hb
  have join : [' '].intercalate (ws ++ vs) = [' '].intercalate ws ++ ' ' :: [' '].intercalate vs :=
    intercalate_append (fun he => hna (by rw [he, List.intercalate_nil])) fun he =>
      hnb (by rw [he, List.intercalate_nil])
  rw [← join]
  exact collapsed_intercalate_words (List.forall_mem_append.mpr ⟨hw, hv⟩)

/-- The only blank in a collapsed text is the space. -/
theorem eq_space (h : Collapsed t) (hc : c ∈ t) (hb : isBlank c = true) : c = ' ' := by
  obtain ⟨ws, hw, rfl⟩ := collapsed_iff.mp h
  rcases Source.mem_intercalate hc with hc | ⟨w, hm, hc⟩
  · exact List.mem_singleton.mp hc
  · exact absurd hb (by simp [(hw w hm).1 c hc])

theorem newline_notMem (h : Collapsed t) : '\n' ∉ t :=
  fun hc => absurd (h.eq_space hc (by decide)) (by decide)

end Collapsed

/-- Whether a text is collapsed and has a word. -/
structure Tidy (t : Text) : Prop where
  collapsed : Collapsed t
  some : t ≠ []

theorem tidy_collapse (h : ¬Blank t) : Tidy (collapse t) :=
  ⟨collapsed_collapse t, mt Source.collapse_eq_nil_iff.mp h⟩

theorem tidy_intercalate_words (h : ∀ w ∈ ws, Solid w ∧ w ≠ []) (hn : ws ≠ []) :
    Tidy ([' '].intercalate ws) := by
  refine ⟨collapsed_intercalate_words h, fun he => hn ?_⟩
  rw [← words_intercalate h, he, words_nil]

/-- Tidy texts may be listed with a sign and one space between neighbours. -/
theorem tidy_intercalate (hs : Solid s) (h : ∀ t ∈ ts, Tidy t) (hn : ts ≠ []) :
    Tidy ((s ++ [' ']).intercalate ts) := by
  induction ts with
  | nil => exact absurd rfl hn
  | cons t ts ih =>
    rw [List.forall_mem_cons] at h
    obtain ⟨first, later⟩ := h
    cases ts with
    | nil => rwa [List.intercalate_singleton]
    | cons u us =>
      have rest := ih later (List.cons_ne_nil u us)
      have split :
          (s ++ [' ']).intercalate (t :: u :: us) = (t ++ s) ++ ' ' :: (s ++ [' ']).intercalate
            (u :: us) := by
        rw [List.intercalate_cons_cons]
        simp only [List.append_assoc, List.singleton_append]
      rw [split]
      exact ⟨(first.collapsed.append (collapsed_of_solid hs)).spaced rest.collapsed
        (by simp [first.some]) rest.some, by simp⟩

end SourceSurvey.Text
