import SourceSurvey.Proofs.Words
import Mathlib.Data.List.Infix

/-! The first and the last word of a text, and what stands inside of words. A text begins, blanks
aside, with the first character of its first word, and it is its last word with the blanks behind it
and a front that ends with a blank, if with anything. A text without blanks stands in another one
exactly if it stands in one of its words, so collapsing a text brings nothing together that was
apart. -/

namespace SourceSurvey.Text

variable {a b s t w x y : Text} {ws : List Text} {c : Char}

/-! ### Ends -/

theorem head?_trimStart (hw : words t = w :: ws) : (trimStart t).head? = w.head? := by
  have some : ¬Blank t := fun hb => by simp [words_eq_nil_iff.mpr hb] at hw
  obtain ⟨front, c, rest, rfl, hf, hc⟩ := exists_eq_blank_append some
  have start : trimStart (front ++ c :: rest) = c :: rest := by
    rw [trimStart, dropWhile_blank_append hf, List.dropWhile_cons_of_neg (by simp [hc])]
  have letters := flatten_words (c :: rest)
  rw [← words_blank_append hf, hw, List.filter_cons_of_pos (by simp [hc])] at letters
  obtain ⟨d, u, rfl⟩ := List.exists_cons_of_ne_nil (solid_of_mem_words (hw ▸ List.mem_cons_self)).2
  rw [start, List.head?_cons, List.head?_cons, (List.cons.inj letters).1]

/-- Behind a front that ends with a blank, words begin anew. -/
theorem words_append_of_front (h : ∀ c ∈ a.getLast?, isBlank c = true) (t : Text) :
    words (a ++ t) = words a ++ words t := by
  rcases List.eq_nil_or_concat a with rfl | ⟨front, c, rfl⟩
  · rfl
  · rw [List.concat_eq_append] at h ⊢
    have gap : Blank [c] := fun d hd => List.mem_singleton.mp hd ▸ h c (by simp)
    rw [List.append_assoc, words_append_gap gap (List.cons_ne_nil c []), words_append_blank gap]

theorem exists_last_word (h : ¬Blank t) :
    ∃ front w gap, t = front ++ (w ++ gap) ∧ (∀ c ∈ front.getLast?, isBlank c = true) ∧
      (Solid w ∧ w ≠ []) ∧ Blank gap := by
  obtain ⟨gap, ht, hg, hl⟩ := exists_trimEnd t
  have kept : trimEnd t ≠ [] := fun he => h (by rw [ht, he]; exact hg)
  let solid : Char → Bool := fun c => !isBlank c
  have split :
      trimEnd t = ((trimEnd t).reverse.dropWhile solid).reverse ++
        ((trimEnd t).reverse.takeWhile solid).reverse := by
    rw [← List.reverse_append, List.takeWhile_append_dropWhile, List.reverse_reverse]
  refine ⟨_, _, gap, by rw [← List.append_assoc, ← split, ← ht], fun c hc =>
    ?_, ⟨fun c hc => ?_, ?_⟩, hg⟩
  · rw [List.getLast?_reverse] at hc
    have := List.head?_dropWhile_not solid (trimEnd t).reverse
    rw [Option.mem_def.mp hc] at this
    simpa [solid] using this
  · have := List.all_eq_true.mp (List.all_takeWhile (p := solid)) c (List.mem_reverse.mp hc)
    simpa [solid] using this
  · obtain ⟨c, u, hc⟩ := List.exists_cons_of_ne_nil (List.reverse_ne_nil_iff.mpr kept)
    have last : isBlank c = false := hl c (by rw [← List.head?_reverse, hc]; rfl)
    rw [hc, List.takeWhile_cons_of_pos (by simp [solid, last])]
    simp

theorem Blank.eq_nil (hb : Blank b) (h : ∀ c ∈ (t ++ b).getLast?, isBlank c = false) : b = [] := by
  rcases List.eq_nil_or_concat b with rfl | ⟨u, c, rfl⟩
  · rfl
  · have last := h c (by simp)
    rw [hb c (by simp)] at last
    exact absurd last (by simp)

theorem intercalate_append {vs : List Text} {sep : Text} (hw : ws ≠ []) (hv : vs ≠ []) :
    sep.intercalate (ws ++ vs) = sep.intercalate ws ++ (sep ++ sep.intercalate vs) := by
  induction ws with
  | nil => exact absurd rfl hw
  | cons w ws ih =>
    cases ws with
    | nil =>
        rw [List.singleton_append, List.intercalate_cons_of_ne_nil hv, List.intercalate_singleton,
          List.append_assoc]
    | cons u us =>
      rw [List.cons_append, List.intercalate_cons_of_ne_nil (by simp), ih (List.cons_ne_nil u us),
        List.intercalate_cons_of_ne_nil (List.cons_ne_nil u us)]
      simp only [List.append_assoc]

theorem intercalate_concat {sep : Text} (h : ws ≠ []) (w : Text) :
    sep.intercalate (ws ++ [w]) = sep.intercalate ws ++ (sep ++ w) := by
  rw [intercalate_append h (List.cons_ne_nil w []), List.intercalate_singleton]

theorem intercalate_concat_append {sep : Text} (ws : List Text) (w x : Text) :
    sep.intercalate (ws ++ [w ++ x]) = sep.intercalate (ws ++ [w]) ++ x := by
  cases ws with
  | nil =>
      rw [List.nil_append, List.nil_append, List.intercalate_singleton, List.intercalate_singleton]
  | cons v ws =>
    rw [intercalate_concat (List.cons_ne_nil v ws), intercalate_concat (List.cons_ne_nil v ws)]
    simp only [List.append_assoc]

/-- A collapsed text ends with a word. -/
theorem trimEnd_collapse (t : Text) : trimEnd (collapse t) = collapse t := by
  rcases List.eq_nil_or_concat (words t) with hw | ⟨ws, w, hw⟩
  · rw [collapse, hw]
    rfl
  · rw [List.concat_eq_append] at hw
    obtain ⟨solid, some⟩ := solid_of_mem_words (show w ∈ words t by simp [hw])
    have split : collapse t = [' '].intercalate (ws ++ [[]]) ++ w := by
      rw [collapse, hw, ← intercalate_concat_append, List.nil_append]
    obtain ⟨b, ht, hb, -⟩ := exists_trimEnd (collapse t)
    have none : b = [] := hb.eq_nil (t := trimEnd (collapse t)) fun c hc => by
      rw [← ht, split, List.getLast?_append_of_ne_nil _ some] at hc
      exact solid c (List.mem_of_getLast? hc)
    rw [none, List.append_nil] at ht
    exact ht.symm

/-! ### Texts inside of words -/

/-- What stands at a character that it does not hold stands in front of it or behind it. -/
theorem infix_append_cons (hc : c ∉ s) (h : s <:+: x ++ c :: y) : s <:+: x ∨ s <:+: y := by
  obtain ⟨u, v, huv⟩ := h
  rw [List.append_assoc] at huv
  rcases List.append_eq_append_iff.mp huv with ⟨z, rfl, hz⟩ | ⟨z, rfl, hz⟩
  · left
    rcases List.append_eq_append_iff.mp hz with ⟨z', rfl, -⟩ | ⟨z', rfl, hz'⟩
    · exact ⟨u, z', by rw [List.append_assoc]⟩
    · cases z' with
      | nil => exact ⟨u, [], by simp⟩
      | cons d z' =>
        obtain ⟨rfl, -⟩ := List.cons.inj hz'
        exact absurd (List.mem_append_right z List.mem_cons_self) hc
  · right
    cases z with
    | nil =>
      cases s with
      | nil => exact List.nil_infix
      | cons d s =>
        obtain ⟨rfl, -⟩ := List.cons.inj hz
        exact absurd List.mem_cons_self hc
    | cons d z =>
      exact ⟨z, v, by rw [List.append_assoc, (List.cons.inj hz).2]; rfl⟩

theorem mem_wordsFrom_nil : w ∈ wordsFrom a [] ↔ w = a ∧ a ≠ [] := by
  cases a with
  | nil => simp
  | cons c a => simp

theorem infix_of_mem_wordsFrom (h : w ∈ wordsFrom a t) : w <:+: a ++ t := by
  induction t generalizing a with
  | nil =>
    rw [(mem_wordsFrom_nil.mp h).1]
    exact (List.prefix_append a []).isInfix
  | cons c t ih =>
    cases hc : isBlank c with
    | true =>
      rw [wordsFrom_blank hc, List.mem_append] at h
      rcases h with h | h
      · rw [(mem_wordsFrom_nil.mp h).1]
        exact (List.prefix_append a (c :: t)).isInfix
      · exact (ih (a := []) h).trans ⟨a ++ [c], [], by simp⟩
    | false =>
      rw [wordsFrom_cons hc] at h
      simpa using ih h

/-- A text without blanks that stands in another one stands in one of its words. -/
theorem exists_infix_wordsFrom (hs : Solid s) (hn : s ≠ []) (h : s <:+: a ++ t) :
    ∃ w ∈ wordsFrom a t, s <:+: w := by
  have last {a : Text} (h : s <:+: a) : ∃ w ∈ wordsFrom a [], s <:+: w := by
    refine ⟨a, mem_wordsFrom_nil.mpr ⟨rfl, ?_⟩, h⟩
    rintro rfl
    exact hn (List.infix_nil.mp h)
  induction t generalizing a with
  | nil => exact last (by rwa [List.append_nil] at h)
  | cons c t ih =>
    cases hc : isBlank c with
    | true =>
      have outside : c ∉ s := fun hm => by simp [hs c hm] at hc
      rw [wordsFrom_blank hc]
      rcases infix_append_cons outside h with h | h
      · obtain ⟨w, hw, inside⟩ := last h
        exact ⟨w, List.mem_append_left _ hw, inside⟩
      · obtain ⟨w, hw, inside⟩ := ih (a := []) h
        exact ⟨w, List.mem_append_right _ hw, inside⟩
    | false =>
      rw [wordsFrom_cons hc]
      exact ih (by simpa using h)

theorem infix_iff_exists_word (hs : Solid s) (hn : s ≠ []) : s <:+: t ↔
    ∃ w ∈ words t, s <:+: w := by
  constructor
  · exact fun h => exists_infix_wordsFrom hs hn h
  · rintro ⟨w, hw, h⟩
    exact h.trans (infix_of_mem_wordsFrom hw)

/-- A text without blanks stands in a collapsed text exactly if it stands in the text. -/
theorem infix_collapse_iff (hs : Solid s) (hn : s ≠ []) : s <:+: collapse t ↔ s <:+: t := by
  rw [infix_iff_exists_word hs hn, words_collapse, ← infix_iff_exists_word hs hn]

end SourceSurvey.Text
