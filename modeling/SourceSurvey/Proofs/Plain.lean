import SourceSurvey.Source.Extraction
import Mathlib.Tactic.SplitIfs

/-! Texts in which no segment opens. Masking gives such a text: a slash that is kept stands before a
character that makes no comment of it, and what stands behind it afterwards is that character or
blank. Masking leaves such a text as it is, whichever language the text is in, so a source and its
masked text have the same summary. -/

namespace SourceSurvey.Source

/-- A text without quotes and without the openers of comments. -/
structure Plain (t : Text) : Prop where
  no_quote : '"' ∉ t
  no_apostrophe : '\'' ∉ t
  no_lineComment : ¬['/', '/'] <:+: t
  no_blockComment : ¬['/', '*'] <:+: t

variable {language : Language} {c : Char} {t rest : Text}

theorem plain_nil : Plain [] := ⟨by simp, by simp, by simp, by simp⟩

/-- A text is plain when its first character opens nothing and the rest is plain. -/
theorem plain_cons_iff :
    Plain (c :: rest) ↔ c ≠ '"' ∧ c ≠ '\'' ∧
      (c = '/' → rest.head? ≠ some '/' ∧ rest.head? ≠ some '*') ∧ Plain rest := by
  have pair (d : Char) :
      ['/', d] <:+: c :: rest ↔ c = '/' ∧ rest.head? = some d ∨ ['/', d] <:+: rest := by
    rw [List.infix_cons_iff, List.cons_prefix_cons,
      List.singleton_prefix_iff_head?_eq_some, eq_comm]
  constructor
  · rintro ⟨hq, ha, hl, hb⟩
    rw [List.mem_cons, not_or] at hq ha
    rw [pair, not_or, not_and] at hl hb
    exact ⟨Ne.symm hq.1, Ne.symm ha.1, fun hc => ⟨hl.1 hc, hb.1 hc⟩, hq.2, ha.2, hl.2, hb.2⟩
  · rintro ⟨hq, ha, hs, h⟩
    refine ⟨?_, ?_, ?_, ?_⟩
    · rw [List.mem_cons, not_or]
      exact ⟨hq.symm, h.no_quote⟩
    · rw [List.mem_cons, not_or]
      exact ⟨ha.symm, h.no_apostrophe⟩
    · rw [pair, not_or, not_and]
      exact ⟨fun hc => (hs hc).1, h.no_lineComment⟩
    · rw [pair, not_or, not_and]
      exact ⟨fun hc => (hs hc).2, h.no_blockComment⟩

/-! ### Masking leaves plain texts as they are -/

theorem Plain.opening?_eq_none (h : Plain (c :: rest)) : opening? language c rest = none := by
  obtain ⟨hq, ha, hs, hr⟩ := plain_cons_iff.mp h
  have hv : rest.head? ≠ some '"' := fun hd => hr.no_quote (List.mem_of_head? hd)
  have hi : rest.take 2 ≠ ['$', '"'] := by
    intro hd
    have hm : '"' ∈ rest.take 2 := by rw [hd]; simp
    exact hr.no_quote (List.mem_of_mem_take hm)
  have hl : ¬(c = '/' ∧ rest.head? = some '/') := fun hc => (hs hc.1).1 hc.2
  have hb : ¬(c = '/' ∧ rest.head? = some '*') := fun hc => (hs hc.1).2 hc.2
  simp [opening?, hl, hb, hv, hi, hq, ha]

theorem mask_of_plain (h : Plain t) : mask language t = t := by
  induction t with
  | nil => rfl
  | cons c rest ih =>
    have ho : opening? language c rest = none := h.opening?_eq_none
    have hk : keeps language .code c rest = true := by
      rw [keeps_code, ho]
      rfl
    have hr := ih (plain_cons_iff.mp h).2.2.2
    rw [mask] at hr ⊢
    rw [maskFrom, if_pos hk, step_code, ho, Option.getD_none, hr]
    rfl

/-! ### Masking gives plain texts -/

/-- What a masked character leaves behind. -/
def IsGap (c : Char) : Prop := c = ' ' ∨ c = '\n'

theorem isGap_of_mem_maskChar {d : Char} (h : d ∈ maskChar c) : IsGap d := by
  rw [maskChar] at h
  split at h
  · exact .inr (List.mem_singleton.mp h)
  · exact .inl (List.eq_of_mem_replicate h)

theorem maskChar_ne_nil (c : Char) : maskChar c ≠ [] := by
  intro h
  have hl := byteLength_maskChar c
  have := c.utf8Size_pos
  rw [h, Text.byteLength] at hl
  omega

theorem plain_append_of_isGap {gap : Text} (hg : ∀ d ∈ gap, IsGap d) (h : Plain t) :
    Plain (gap ++ t) := by
  induction gap with
  | nil => exact h
  | cons d gap ih =>
    rw [List.forall_mem_cons] at hg
    obtain ⟨rfl | rfl, hg⟩ := hg <;>
      exact plain_cons_iff.mpr ⟨by decide, by decide, fun hc => absurd hc (by decide), ih hg⟩

/-- A masked text begins as the text does, or with a gap. -/
theorem head?_maskFrom {here : Standing} {d : Char}
    (h : (maskFrom language here t).head? = some d) :
    t.head? = some d ∨ IsGap d := by
  cases t with
  | nil => simp [maskFrom] at h
  | cons c rest =>
    rw [maskFrom] at h
    split at h
    · exact .inl h
    · obtain ⟨e, gap, hg⟩ := List.exists_cons_of_ne_nil (maskChar_ne_nil c)
      rw [hg, List.cons_append, List.head?_cons, Option.some.injEq] at h
      have hm : d ∈ maskChar c := by
        rw [hg, h]
        exact List.mem_cons_self
      exact .inr (isGap_of_mem_maskChar hm)

theorem of_opening?_eq_none (h : opening? language c rest = none) :
    c ≠ '"' ∧ c ≠ '\'' ∧ (c = '/' → rest.head? ≠ some '/' ∧ rest.head? ≠ some '*') := by
  refine ⟨?_, ?_, ?_⟩
  · rintro rfl
    revert h
    unfold opening?
    split_ifs <;> simp_all
  · rintro rfl
    revert h
    unfold opening?
    split_ifs <;> simp_all
  · rintro rfl
    constructor <;> intro hd <;> simp [opening?, hd] at h

/-- What the scan makes of a text is plain: a slash it keeps is followed by what followed it before,
or by a gap. -/
theorem plain_maskFrom (here : Standing) (t : Text) : Plain (maskFrom language here t) := by
  induction t generalizing here with
  | nil => exact plain_nil
  | cons c rest ih =>
    rw [maskFrom]
    split
    · next hk =>
      obtain ⟨-, ho⟩ : here = .code ∧ opening? language c rest = none := by simpa [keeps] using hk
      obtain ⟨hq, ha, hs⟩ := of_opening?_eq_none ho
      refine plain_cons_iff.mpr ⟨hq, ha, fun hc => ⟨fun hd => ?_, fun hd => ?_⟩, ih _⟩
      · exact (head?_maskFrom hd).elim (hs hc).1 (by simp [IsGap])
      · exact (head?_maskFrom hd).elim (hs hc).2 (by simp [IsGap])
    · exact plain_append_of_isGap (fun d => isGap_of_mem_maskChar) (ih _)

/-- A masked text holds no quotes and opens no comments, masking it again in either language changes
nothing, and it has the summary of the text. -/
theorem mask_fixed (language other : Language) (t : Text) :
    Plain (mask language t) ∧ mask other (mask language t) = mask language t ∧
      ∀ path, summarize language path (mask language t) = summarize language path t := by
  have plain : Plain (mask language t) := plain_maskFrom .code t
  refine ⟨plain, mask_of_plain plain, fun path => ?_⟩
  have site : Site.ofText language (mask language t) = Site.ofText language t := by
    rw [Site.ofText, Site.ofText, mask_of_plain plain]
  rw [summarize, summarize, site]

end SourceSurvey.Source
