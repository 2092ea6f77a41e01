import SourceSurvey.Proofs.Widening
import SourceSurvey.Proofs.Clauses

/-! Clauses in a text and in the text with one more blank. Behind the blanks that stand at places
beside each other the same character follows, so a clause is read in both texts, and from places
beside each other. Only a clause that must have a blank in front of it and an end directly behind
its blanks is read with the further blank and not without it, where the newline is all that stands
between its word and the end. -/

namespace SourceSurvey.Source

open Text Pattern

namespace Widening

variable {g : Widening} {here here' : Cursor} {b b' rest rest' : Text}

/-- Places beside each other, the blanks that stand there, and what stands behind them. -/
structure OverBlanks (g : Widening) (here here' : Cursor) (b b' rest rest' : Text) : Prop where
  narrow : here.rest = b ++ rest
  wide : here'.rest = b' ++ rest'
  blank : Blank b
  blank' : Blank b'
  stop : rest.head?.any Text.isBlank = false
  behind : g.Beside (here.beyond b rest) (here'.beyond b' rest')
  /-- The last blanks are one character. -/
  last : b = [] ∧ b' = [] ∨ ∃ a a' d, b = a ++ [d] ∧ b' = a' ++ [d] ∧
    g.Beside (here.beyond a (d :: rest)) (here'.beyond a' (d :: rest')) ∧
      here'.beyond a' (d :: rest') ≠ g.wideGap ∧
    ((a = [] ↔ a' = []) ∨ here = g.gap ∧ rest = g.behind)

theorem overBlanks_nil (h : g.Beside here here') (hs : here.rest.head?.any Text.isBlank = false) :
    OverBlanks g here here' [] [] here.rest here'.rest where
  narrow := rfl
  wide := rfl
  blank _ hc := absurd hc List.not_mem_nil
  blank' _ hc := absurd hc List.not_mem_nil
  stop := hs
  behind := h
  last := .inl ⟨rfl, rfl⟩

theorem OverBlanks.cons {c : Char} {t t' : Text} (h : g.Beside here here') (hw : here' ≠ g.wideGap)
    (hr : here.rest = c :: t) (hr' : here'.rest = c :: t') (hc : Text.isBlank c = true)
    (o : OverBlanks g (here.past c t) (here'.past c t') b b' rest rest') :
    OverBlanks g here here' (c :: b) (c :: b') rest rest' where
  narrow := hr.trans (congrArg (c :: ·) o.narrow)
  wide := hr'.trans (congrArg (c :: ·) o.wide)
  blank := List.forall_mem_cons.mpr ⟨hc, o.blank⟩
  blank' := List.forall_mem_cons.mpr ⟨hc, o.blank'⟩
  stop := o.stop
  behind := by simpa [Cursor.past_eq_beyond] using o.behind
  last := by
    rcases o.last with ⟨rfl, rfl⟩ | ⟨a, a', d, rfl, rfl, hb, hn, -⟩
    · obtain rfl : t = rest := o.narrow
      obtain rfl : t' = rest' := o.wide
      have first : here.beyond [] (c :: t) = here := by rw [← hr, Cursor.beyond_nil]
      have first' : here'.beyond [] (c :: t') = here' := by rw [← hr', Cursor.beyond_nil]
      exact .inr ⟨[], [], c, rfl, rfl, by rwa [first, first'], by rwa [first'], .inl Iff.rfl⟩
    · refine .inr ⟨c :: a, c :: a', d, rfl, rfl, ?_, ?_, .inl (by simp)⟩
      · simpa [Cursor.past_eq_beyond] using hb
      · simpa [Cursor.past_eq_beyond] using hn

theorem OverBlanks.gap
    (o : OverBlanks g (g.gap.past '\n' g.behind)
    ((g.wideGap.past g.blank ('\n' :: g.behind)).past '\n' g.behind) b b' rest rest') :
    OverBlanks g g.gap g.wideGap ('\n' :: b) (g.blank :: '\n' :: b') rest rest' where
  narrow := congrArg ('\n' :: ·) o.narrow
  wide := congrArg (g.blank :: '\n' :: ·) o.wide
  blank := List.forall_mem_cons.mpr ⟨by decide, o.blank⟩
  blank' := List.forall_mem_cons.mpr ⟨g.proper, List.forall_mem_cons.mpr ⟨by decide, o.blank'⟩⟩
  stop := o.stop
  behind := by simpa [Cursor.past_eq_beyond] using o.behind
  last := by
    rcases o.last with ⟨rfl, rfl⟩ | ⟨a, a', d, rfl, rfl, hb, hn, -⟩
    · obtain rfl : g.behind = rest := o.narrow
      obtain rfl : g.behind = rest' := o.wide
      refine .inr ⟨[], [g.blank], '\n', rfl, rfl, beside_past_wideGap, past_wideGap_ne,
        .inr ⟨rfl, rfl⟩⟩
    · refine .inr ⟨'\n' :: a, g.blank :: '\n' :: a', d, rfl, rfl, ?_, ?_, .inl (by simp)⟩
      · simpa [Cursor.past_eq_beyond] using hb
      · simpa [Cursor.past_eq_beyond] using hn

theorem Beside.exists_overBlanks (h : g.Beside here here') :
    ∃ b b' rest rest', OverBlanks g here here' b b' rest rest' := by
  induction hn : here.rest.length using Nat.strongRecOn generalizing here here' with
  | ind n ih =>
    subst hn
    by_cases hs : here.rest.head?.any Text.isBlank = false
    · exact ⟨[], [], here.rest, here'.rest, overBlanks_nil h hs⟩
    rcases h.view with ⟨hr, -⟩ | ⟨c, rest, rest', hr, hr', hb, hw⟩ | ⟨rfl, rfl⟩
    · exact absurd (by rw [hr]; rfl) hs
    · obtain ⟨b, b', r, r', o⟩ := ih _ (by simp [hr, Cursor.past]) hb rfl
      exact ⟨_, _, _, _, o.cons h hw hr hr' (by simpa [hr] using hs)⟩
    · obtain ⟨b, b', r, r', o⟩ :=
        ih _ (by simp [Widening.gap, Cursor.between, Cursor.past]) beside_past_gap rfl
      exact ⟨_, _, _, _, o.gap⟩

theorem OverBlanks.stop' (o : OverBlanks g here here' b b' rest rest') :
    rest'.head?.any Text.isBlank = false :=
  o.behind.isBlank_head? ▸ o.stop

/-- The same character stands behind the blanks. -/
theorem OverBlanks.head?_eq (o : OverBlanks g here here' b b' rest rest') :
    rest.head? = rest'.head? := by
  have hr : (here.beyond b rest).rest = rest := rfl
  have hr' : (here'.beyond b' rest').rest = rest' := rfl
  rcases o.behind.view with ⟨h, h'⟩ | ⟨c, t, t', h, h', -, -⟩ | ⟨h, -⟩
  · rw [← hr, ← hr', h, h']
  · rw [← hr, ← hr', h, h', List.head?_cons, List.head?_cons]
  · have stop := o.stop
    rw [← hr, h] at stop
    exact absurd stop (by simp [Widening.gap, Cursor.between, Text.isBlank])

theorem OverBlanks.ne_wideGap (o : OverBlanks g here here' b b' rest rest') :
    here'.beyond b' rest' ≠ g.wideGap := by
  intro h
  have stop : (here'.beyond b' rest').rest.head?.any Text.isBlank = false := o.stop'
  rw [h] at stop
  exact absurd stop (by simp [wideGap, Cursor.between, g.proper])

theorem OverBlanks.exists_end {E : Text} (o : OverBlanks g here here' b b' rest rest')
    (h : ¬∀ c ∈ rest.head?, c ∉ E) :
    ∃ c t t', c ∈ E ∧ rest = c :: t ∧ rest' = c :: t' := by
  have heads := o.head?_eq
  cases hr : rest with
  | nil => exact absurd (fun c hc => by simp [hr] at hc) h
  | cons c t =>
    cases hr' : rest' with
    | nil => simp [hr, hr'] at heads
    | cons c' t' =>
      obtain rfl : c = c' := by simpa [hr, hr'] using heads
      refine ⟨c, t, t', ?_, rfl, rfl⟩
      by_contra hc
      refine h fun d hd => ?_
      rw [hr] at hd
      rwa [← Option.mem_some_iff.mp hd]

section Clause

variable {σ : Type} {E : Text} {N N' F F' : Next σ} (hE : ∀ c ∈ E, Text.isBlank c = false)
  (hN : Closes E N) (hF : Spans E N F) (hN' : Closes E N') (hF' : Spans E N' F')
  (hrel : ∀ there there', g.Beside there there' → there' ≠ g.wideGap →
  Option.Rel g.Alike (F there) (F' there'))
include hE hN hF hN' hF' hrel

/-- A clause behind blanks is read in both texts. -/
theorem rel_blanks_clause (h : g.Beside here here') :
    Option.Rel g.Alike (blanks.run here F) (blanks.run here' F') := by
  obtain ⟨b, b', rest, rest', o⟩ := h.exists_overBlanks
  by_cases hc : ∀ c ∈ rest.head?, c ∉ E
  · rw [run_blanks_full hE hN hF o.blank o.narrow o.stop hc,
      run_blanks_full hE hN' hF' o.blank' o.wide o.stop' (o.head?_eq ▸ hc)]
    exact hrel _ _ o.behind o.ne_wideGap
  · obtain ⟨c, t, t', hce, rfl, rfl⟩ := o.exists_end hc
    rcases o.last with ⟨rfl, rfl⟩ | ⟨a, a', d, rfl, rfl, hb, hw, -⟩
    · rw [run_blanks_end hE hF o.narrow hce, run_blanks_end hE hF' o.wide hce]
      exact .none
    · have hr : here.rest = a ++ d :: c :: t := by
        rw [o.narrow, List.append_assoc, List.singleton_append]
      have hr' : here'.rest = a' ++ d :: c :: t' := by
        rw [o.wide, List.append_assoc, List.singleton_append]
      have hd : Text.isBlank d = true := o.blank d (by simp)
      rw [run_blanks_last hE hN hF o.blank.left hd hce hr,
        run_blanks_last hE hN' hF' o.blank'.left hd hce hr']
      exact hrel _ _ hb hw

/-- A clause that must have a blank in front of it is read in both texts, too, if not all that
stands between its word and an end is the newline. -/
theorem rel_someBlanks_clause (h : g.Beside here here')
    (hgap : here = g.gap → ∀ c ∈ g.behind.head?, c ∉ E) :
    Option.Rel g.Alike (someBlanks.run here F) (someBlanks.run here' F') := by
  obtain ⟨b, b', rest, rest', o⟩ := h.exists_overBlanks
  rcases o.last with ⟨rfl, rfl⟩ | ⟨a, a', d, rfl, rfl, hb, hw, hempty⟩
  · have stop : here.rest.head?.any Text.isBlank = false := by
      rw [o.narrow]
      exact o.stop
    rw [run_someBlanks_stop stop, run_someBlanks_stop (h.isBlank_head? ▸ stop)]
    exact .none
  have hr : here.rest = a ++ d :: rest := by rw [o.narrow, List.append_assoc, List.singleton_append]
  have hr' : here'.rest = a' ++ d :: rest' := by
    rw [o.wide, List.append_assoc, List.singleton_append]
  have hd : Text.isBlank d = true := o.blank d (by simp)
  by_cases hc : ∀ c ∈ rest.head?, c ∉ E
  · rw [run_someBlanks_full hE hN hF o.blank (by simp) o.narrow o.stop hc,
      run_someBlanks_full hE hN' hF' o.blank' (by simp) o.wide o.stop' (o.head?_eq ▸ hc)]
    exact hrel _ _ o.behind o.ne_wideGap
  · obtain ⟨c, t, t', hce, rfl, rfl⟩ := o.exists_end hc
    have same : a = [] ↔ a' = [] :=
      hempty.resolve_right fun ⟨hg, hbehind⟩ => hgap hg c (by simp [← hbehind]) hce
    by_cases ha : a = []
    · have ha' : a' = [] := same.mp ha
      subst ha ha'
      rw [run_someBlanks_end hE hF hd hce hr, run_someBlanks_end hE hF' hd hce hr']
      exact .none
    · rw [run_someBlanks_last hE hN hF o.blank.left ha hd hce hr,
        run_someBlanks_last hE hN' hF' o.blank'.left (fun ha' => ha (same.mpr ha')) hd hce hr']
      exact hrel _ _ hb hw

end Clause

/-! ### Clauses behind their words -/

/-- A place behind no word. -/
def Free (here : Cursor) : Prop := here.before.head?.any isWord = false

theorem free_past {c : Char} (hc : isWord c = false) (here : Cursor) (rest : Text) :
    Free (here.past c rest) := by
  simpa [Free, Cursor.past] using hc

/-- One of some words ends a text, and one of some signs begins the text behind it. -/
def Hangs (words : List Text) (ends x y : Text) : Prop :=
  (∃ w ∈ words, w <:+ x ∧ (x.take (x.length - w.length)).getLast?.any isWord = false) ∧
    y.head?.any ends.contains = true

instance (words : List Text) (ends x y : Text) : Decidable (Hangs words ends x y) :=
  inferInstanceAs (Decidable (_ ∧ _))

section Words

variable {σ : Type} {E ends w : Text} {keys : List Text} {N N' : Next σ} {L : Pattern σ}
  {P : Cursor → Prop}

/-- A part that is a clause in both texts. -/
structure IsClause (g : Widening) (E : Text) (L : Pattern σ) : Prop where
  spans : ∀ N : Next σ, Spans E N (L.run · N)
  rel : ∀ N N' : Next σ, Agree g Anywhere N N' → ∀ here here', g.Beside here here' →
    here' ≠ g.wideGap →
    Option.Rel g.Alike (L.run here N) (L.run here' N')
  avoids : Avoids E L

theorem isClause_lazyPlus (hE : ∀ c ∈ E, Text.isBlank c = false) :
    IsClause g E (lazyPlus (noneOf E) : Pattern σ) where
  spans := spans_lazyPlus E
  avoids := avoids_lazyPlus
  rel N N' h here here' hb hn := by
    refine rel_lazyPlus (fun _ => ?_) h hb hn
    have outside : g.blank ∉ E :=
      notMem_of_blank hE (b := [g.blank]) (by simpa [Blank] using g.proper) _ (by simp)
    simpa using outside

theorem IsClause.mark {name : σ} (h : IsClause g E L) : IsClause g E (Pattern.mark name L) where
  spans := spans_mark h.spans
  avoids := h.avoids.mark
  rel _ _ hN here here' hb hn :=
    rel_map (h.rel _ _ hN.markEnd here here' hb hn) fun _ _ ha => ha.markBegin hb

variable (hE : ∀ c ∈ E, Text.isBlank c = false) (hL : IsClause g E L) (h : Agree g Anywhere N N')
  (hN : Closes E N) (hN' : Closes E N')
include hE hL h hN hN'

theorem agree_blanks_clause : Agree g P ((all [blanks, L]).run · N) ((all [blanks, L]).run · N') :=
  fun _ _ hb _ => rel_blanks_clause hE hN (hL.spans N) hN' (hL.spans N') (hL.rel N N' h) hb

/-- A clause behind its word is read in both texts if the word does not hang. -/
theorem agree_word_clause (hw : w ∈ keys) (hs : Solid w) (hends : ∀ c ∈ E, c ∈ ends)
    (hg : ¬Hangs keys ends g.front g.behind) :
    Agree g Free ((all [literal w, someBlanks, L]).run · N)
      ((all [literal w, someBlanks, L]).run · N') := by
  have clause :
      Agree g (fun there => ∃ r, there.before = w.reverse ++ r ∧ r.head?.any isWord = false)
      ((all [someBlanks, L]).run · N) ((all [someBlanks, L]).run · N') := by
    rintro here here' hb ⟨r, hr, hfree⟩
    refine rel_someBlanks_clause hE hN (hL.spans N) hN' (hL.spans N') (hL.rel N N' h) hb ?_
    rintro rfl c hc hce
    have front : g.front = r.reverse ++ w := by
      have := congrArg List.reverse hr
      simpa [gap, Cursor.between] using this
    refine hg ⟨⟨w, hw, front ▸ List.suffix_append _ _, ?_⟩, ?_⟩
    · rw [front, List.length_append, Nat.add_sub_cancel, List.take_left, List.getLast?_reverse]
      exact hfree
    · rw [Option.mem_def.mp hc]
      simpa using hends c hce
  refine agree_all_cons (agree_literal hs clause fun here rest hfree _ => ?_)
  exact ⟨here.before, rfl, hfree⟩

end Words

end Widening

end SourceSurvey.Source
