import SourceSurvey.Proofs.WidePattern
import SourceSurvey.Proofs.Widened
import SourceSurvey.Proofs.View

/-! Matches in a text and in the text with one more blank. A shy pattern starts no match in front of
a blank, so the matches of the two texts answer each other where the pattern keeps the agreement,
and a search takes or leaves a match in both. The parts of matches that answer each other are the
same texts, or one of them has the further blank. -/

namespace SourceSurvey

open Text Pattern

namespace Source

namespace Widening

variable {g : Widening} {first first' last last' : Cursor}

theorem text_between (v w x x' : Text) :
    (Span.mk (.between v (w ++ x)) (.between (v ++ w) x')).text = w := by
  rw [Span.text, Span.stop, Span.start]
  show takeBytes (byteLength (v ++ w) - byteLength v) (w ++ x) = w
  rw [byteLength_append, Nat.add_sub_cancel_left, takeBytes_append]

theorem text_of_le {v v' : Text} (h : byteLength v' ≤ byteLength v) (x x' : Text) :
    (Span.mk (.between v x) (.between v' x')).text = [] := by
  rw [Span.text, Span.stop, Span.start]
  show takeBytes (byteLength v' - byteLength v) x = []
  rw [Nat.sub_eq_zero_of_le h]
  exact takeBytes_append [] x

theorem byteLength_le_of_append (v w : Text) : byteLength v ≤ byteLength (v ++ w) := by
  rw [byteLength_append]
  omega

/-- What stands between places beside each other. -/
theorem Beside.widened (hf : g.Beside first first') (hl : g.Beside last last') :
    Widened g.blank (Span.mk first last).text (Span.mk first' last').text := by
  cases hf with
  | @ahead v u h =>
    cases hl with
    | @ahead v' u' h' =>
      rcases List.append_eq_append_iff.mp (h.trans h'.symm) with ⟨w, rfl, rfl⟩ | ⟨w, rfl, rfl⟩
      · rw [List.append_assoc, List.append_assoc, text_between, text_between]
        exact .same w
      · rw [text_of_le (byteLength_le_of_append v' w), text_of_le (byteLength_le_of_append v' w)]
        exact .same []
    | inside =>
      have narrow : (Span.mk (.between v (u ++ '\n' :: g.behind)) g.gap).text = u := by
        rw [gap, ← h, text_between]
      have wide : (Span.mk (.between v (u ++ g.blank :: '\n' :: g.behind))
          (.between (g.front ++ [g.blank]) ('\n' :: g.behind))).text = u ++ [g.blank] := by
        have := text_between v (u ++ [g.blank]) ('\n' :: g.behind) ('\n' :: g.behind)
        rwa [← List.append_assoc, h, List.append_assoc, List.singleton_append] at this
      rw [narrow, wide]
      exact .last u
    | @past v' u' h' =>
      have narrow := text_between v (u ++ '\n' :: v') u' u'
      have wide := text_between v (u ++ g.blank :: '\n' :: v') u' u'
      simp only [← List.append_assoc, h] at narrow wide
      simp only [List.append_assoc, List.cons_append, h'] at narrow wide
      rw [narrow, wide]
      exact .inner u v'
  | inside =>
    cases hl with
    | @ahead v' u' h' =>
      have le := byteLength_le_of_append v' u'
      rw [h'] at le
      rw [gap, text_of_le le, text_of_le (Nat.le_trans le (byteLength_le_of_append _ _))]
      exact .same []
    | inside =>
      rw [gap, text_of_le (Nat.le_refl _), text_of_le (Nat.le_refl _)]
      exact .same []
    | @past v' u' h' =>
      have narrow := text_between g.front ('\n' :: v') u' u'
      have wide := text_between (g.front ++ [g.blank]) ('\n' :: v') u' u'
      simp only [List.append_assoc, List.cons_append, List.nil_append, h'] at narrow wide
      rw [gap, narrow, wide]
      exact .same _
  | @past v u h =>
    cases hl with
    | @ahead v' u' h' =>
      have le := byteLength_le_of_append v' u'
      rw [h'] at le
      rw [text_of_le (Nat.le_trans le (byteLength_le_of_append _ _)),
        text_of_le (Nat.le_trans le (byteLength_le_of_append _ _))]
      exact .same []
    | inside =>
      have le := byteLength_le_of_append (g.front ++ [g.blank]) ('\n' :: v)
      rw [List.append_assoc, List.singleton_append] at le
      rw [gap, text_of_le (byteLength_le_of_append _ _), text_of_le le]
      exact .same []
    | @past v' u' h' =>
      rcases List.append_eq_append_iff.mp (h.trans h'.symm) with ⟨w, rfl, rfl⟩ | ⟨w, rfl, rfl⟩
      · have narrow := text_between (g.front ++ '\n' :: v) w u' u'
        have wide := text_between (g.front ++ g.blank :: '\n' :: v) w u' u'
        simp only [List.append_assoc, List.cons_append] at narrow wide
        rw [narrow, wide]
        exact .same w
      · have narrow := byteLength_le_of_append (g.front ++ '\n' :: v') w
        have wide := byteLength_le_of_append (g.front ++ g.blank :: '\n' :: v') w
        simp only [List.append_assoc, List.cons_append] at narrow wide
        rw [text_of_le narrow, text_of_le wide]
        exact .same []

/-! ### Searches -/

variable {here here' there there' : Cursor} {p : Pattern Slot} {m m' : Match Slot}

/-- In front of no blank, a place is as far into its text as another one if the place beside it is.
-/
theorem Beside.offset_lt_iff (h : g.Beside here here') (ht : g.Beside there there')
    (hn : here.rest.head?.any Text.isBlank = false ∨ there.rest.head?.any Text.isBlank = false) :
    here.offset < there.offset ↔ here'.offset < there'.offset := by
  have ahead : ∀ {v u : Text}, v ++ u = g.front →
      (Cursor.between v (u ++ '\n' :: g.behind)).rest.head?.any Text.isBlank = false →
        byteLength v < byteLength g.front := by
    intro v u h hb
    cases u with
    | nil => exact absurd hb (by simp [Cursor.between, Text.isBlank])
    | cons c u =>
      have := c.utf8Size_pos
      rw [← h, byteLength_append, byteLength]
      omega
  have start : ∀ {v u : Text}, v ++ u = g.front →
      byteLength v ≤ byteLength g.front := fun {v u} h =>
    h ▸ byteLength_le_of_append v u
  have inside : g.gap.rest.head?.any Text.isBlank ≠ false := by
    simp [gap, Cursor.between, Text.isBlank]
  have newline : ('\n' : Char).utf8Size = 1 := by decide
  cases h <;> cases ht <;> simp only [gap, Cursor.between, byteLength_append, byteLength, newline]
    at * <;> grind

/-- Matches that answer each other, neither in front of a blank. -/
structure MatchAlike (g : Widening) (m m' : Match Slot) : Prop where
  first : g.Beside m.first m'.first
  ending : g.Alike m.ending m'.ending
  stop : m.first.rest.head?.any Text.isBlank = false

section Search

variable {told : Match Slot → Prop} (hs : Shy Text.isBlank p)
  (ha : Agree g Anywhere (p.run · stopHere) (p.run · stopHere))
  (ht : ∀ here m, p.matchAt here = some m → told m)
include hs ha ht

theorem rel_matchAt (h : g.Beside here here') :
    Option.Rel (fun m m' => g.MatchAlike m m' ∧ told m ∧ told m') (p.matchAt here)
      (p.matchAt here') := by
  have start : ∀ here, p.matchAt here = (p.run here stopHere).map (Match.mk here) := fun _ => rfl
  by_cases hb : here.rest.head?.any Text.isBlank = true
  · rw [start, start, hs _ here hb, hs _ here' (h.isBlank_head? ▸ hb)]
    exact .none
  · have endings := ha here here' h trivial
    have hm := ht here
    have hm' := ht here'
    rw [start] at hm hm'
    rw [start, start]
    beta_reduce at endings
    generalize p.run here stopHere = a, p.run here' stopHere = a' at endings hm hm'
    cases endings with
    | none => exact .none
    | some he => exact .some ⟨⟨h, he, by simpa using hb⟩, hm _ rfl, hm' _ rfl⟩

omit ha ht in
theorem filterMap_placesFrom_blank (here : Cursor) {c : Char} {rest : Text}
    (hc : Text.isBlank c = true) (hr : here.rest = c :: rest) :
    (here.placesFrom (c :: rest)).filterMap p.matchAt =
      ((here.past c rest).placesFrom rest).filterMap p.matchAt := by
  have none : p.matchAt here = none :=
    Option.map_eq_none_iff.mpr (hs _ here (by simpa [hr] using hc))
  rw [Cursor.placesFrom, List.filterMap_cons_none none]

/-- The matches from places beside each other on. -/
theorem forall₂_placesFrom (h : g.Beside here here') :
    List.Forall₂ (fun m m' => g.MatchAlike m m' ∧ told m ∧ told m')
    ((here.placesFrom here.rest).filterMap p.matchAt)
      ((here'.placesFrom here'.rest).filterMap p.matchAt) := by
  have first : ∀ {here here' : Cursor} {l : List Cursor} {l' : List Cursor}, g.Beside here here' →
      List.Forall₂ (fun m m' => g.MatchAlike m m' ∧ told m ∧ told m') (l.filterMap p.matchAt)
        (l'.filterMap p.matchAt) →
      List.Forall₂ (fun m m' => g.MatchAlike m m' ∧ told m ∧ told m')
        ((here :: l).filterMap p.matchAt)
        ((here' :: l').filterMap p.matchAt) := by
    intro here here' l l' h hl
    have m := rel_matchAt hs ha ht h
    rw [List.filterMap_cons, List.filterMap_cons]
    generalize p.matchAt here = a, p.matchAt here' = a' at m
    cases m with
    | none => exact hl
    | some hm => exact .cons hm hl
  induction hn : here.rest.length using Nat.strongRecOn generalizing here here' with
  | ind n ih =>
    subst hn
    rcases h.view with ⟨hr, hr'⟩ | ⟨c, rest, rest', hr, hr', hb, -⟩ | ⟨rfl, rfl⟩
    · rw [hr, hr']
      exact first h .nil
    · have later := ih _ (by simp [hr, Cursor.past]) hb rfl
      rw [hr, hr']
      exact first h later
    · have later := ih _ (by simp [Widening.gap, Cursor.between, Cursor.past]) beside_past_gap rfl
      have narrow := filterMap_placesFrom_blank hs g.gap (c := '\n') (by decide) rfl
      have wide := filterMap_placesFrom_blank hs g.wideGap g.proper rfl
      have wide' :=
        filterMap_placesFrom_blank hs (g.wideGap.past g.blank ('\n' :: g.behind)) (c := '\n')
          (by decide) rfl
      show List.Forall₂ _ ((g.gap.placesFrom ('\n' :: g.behind)).filterMap p.matchAt)
        ((g.wideGap.placesFrom (g.blank :: '\n' :: g.behind)).filterMap p.matchAt)
      rw [narrow, wide, wide']
      exact later

/-- The candidates of the two texts answer each other. -/
theorem forall₂_candidates : List.Forall₂ (fun m m' => g.MatchAlike m m' ∧ told m ∧ told m')
    (p.candidates g.narrow) (p.candidates g.wide) := by
  rw [candidates_eq, candidates_eq]
  exact forall₂_placesFrom hs ha ht (.ahead (v := []) (u := g.front) rfl)

end Search

variable {r : Match Slot → Match Slot → Prop}

theorem MatchAlike.start_lt_stop (h : g.MatchAlike m m') : m.start < m.stop ↔ m'.start < m'.stop :=
  h.first.offset_lt_iff h.ending.last (.inl h.stop)

/-- Where a search goes on behind a match, it goes on in the other text. -/
theorem MatchAlike.resumeAfter_iff (h : g.MatchAlike m m') (hb : g.Beside here here')
    (hs : here.rest.head?.any Text.isBlank = false) :
    here.offset < resumeAfter m ↔ here'.offset < resumeAfter m' := by
  have before := hb.offset_lt_iff h.ending.last (.inl hs)
  have after := h.ending.last.offset_lt_iff hb (.inr hs)
  have start := h.start_lt_stop
  rw [resumeAfter, resumeAfter]
  by_cases hm : m.start < m.stop
  · rw [if_pos hm, if_pos (start.mp hm)]
    exact before
  · rw [if_neg hm, if_neg fun hm' => hm (start.mpr hm')]
    simp only [Match.stop]
    omega

/-- A search takes matches that answer each other. -/
theorem forall₂_select {refuses refuses' : Cursor → Bool} {ms ms' : List (Match Slot)}
    (hm : List.Forall₂ (fun m m' => g.MatchAlike m m' ∧ r m m') ms ms')
    (hr : ∀ m m', g.MatchAlike m m' → refuses m.first = refuses' m'.first) {resume resume' : Nat}
    (hres : ∀ here here', g.Beside here here' → here.rest.head?.any Text.isBlank = false →
      (here.offset < resume ↔ here'.offset < resume')) :
    List.Forall₂ (fun m m' => g.MatchAlike m m' ∧ r m m') (select refuses resume ms)
      (select refuses' resume' ms') := by
  induction hm generalizing resume resume' with
  | nil => exact .nil
  | @cons m m' ms ms' h _ ih =>
    have early : decide (m.start < resume) = decide (m'.start < resume') :=
      decide_eq_decide.mpr (hres _ _ h.1.first h.1.stop)
    rw [select, select, early, hr m m' h.1]
    split
    · exact ih hres
    · exact .cons h (ih fun here here' hb hs => h.1.resumeAfter_iff hb hs)

/-- The matches that a search takes answer each other. -/
theorem forall₂_matchesUnless {told : Match Slot → Prop} {refuses refuses' : Cursor → Bool}
    (hs : Shy Text.isBlank p) (ha : Agree g Anywhere (p.run · stopHere) (p.run · stopHere))
    (ht : ∀ here m, p.matchAt here = some m → told m)
    (hr : ∀ here here', g.Beside here here' → here.rest.head?.any Text.isBlank = false →
    refuses here = refuses' here') :
    List.Forall₂ (fun m m' => g.MatchAlike m m' ∧ told m ∧ told m')
      (p.matchesUnless refuses g.narrow)
      (p.matchesUnless refuses' g.wide) :=
  forall₂_select (forall₂_candidates hs ha ht) (fun m m' hm => hr _ _ hm.first hm.stop)
    fun here here' _ _ => by simp

/-! ### Parts of matches -/

theorem rel_lookup (slot : Slot) {l l' : List (Slot × Cursor)}
    (h : List.Forall₂ (fun m m' => m.1 = m'.1 ∧ g.Beside m.2 m'.2) l l') :
    Option.Rel g.Beside (l.lookup slot) (l'.lookup slot) := by
  induction h with
  | nil => exact .none
  | @cons m m' l l' h _ ih =>
    rw [List.lookup_cons, List.lookup_cons, h.1]
    split
    · exact .some h.2
    · exact ih

theorem Alike.rel_text? (h : g.Alike m.ending m'.ending) (slot : Slot) :
    Option.Rel (Widened g.blank) (m.text? slot) (m'.text? slot) := by
  have begins := rel_lookup slot h.begins
  have ends := rel_lookup slot h.ends
  rw [Match.text?, Match.span?, Match.text?, Match.span?]
  generalize m.ending.begins.lookup slot = f, m'.ending.begins.lookup slot = f' at begins
  generalize m.ending.ends.lookup slot = l, m'.ending.ends.lookup slot = l' at ends
  cases begins with
  | none => exact .none
  | some hf =>
    cases ends with
    | none => exact .none
    | some hl => exact .some (hf.widened hl)

/-- A part that is not there is an empty one in both texts. -/
theorem MatchAlike.widened_text (h : g.MatchAlike m m') (slot : Slot) :
    Widened g.blank (m.text slot) (m'.text slot) := by
  have part := h.ending.rel_text? slot
  rw [Match.text, Match.text]
  generalize m.text? slot = t, m'.text? slot = t' at part
  cases part with
  | none => exact .same []
  | some ht => exact ht

theorem MatchAlike.widened (h : g.MatchAlike m m') : Widened g.blank m.whole.text m'.whole.text :=
  h.first.widened h.ending.last

/-! ### Parameters -/

theorem Beside.widened_rest (h : g.Beside here here') : Widened g.blank here.rest here'.rest := by
  cases h with
  | ahead => exact .inner _ _
  | inside => exact .same _
  | past => exact .same _

/-- Texts in which matches that answer each other are replaced by a space have the same words. -/
theorem words_replaceFrom {ms ms' : List (Match Slot)}
    (hm : List.Forall₂ (fun m m' => g.MatchAlike m m' ∧ r m m') ms ms') (h : g.Beside here here') :
    words (replaceFrom [' '] here.offset here.rest ms) = words
      (replaceFrom [' '] here'.offset here'.rest ms') := by
  have space : Blank [' '] := by decide
  induction hm generalizing here here' with
  | nil => exact h.widened_rest.words_eq g.proper
  | @cons m m' ms ms' hm _ ih =>
    have front : words (Span.mk here m.first).text = words (Span.mk here' m'.first).text :=
      (h.widened hm.1.first).words_eq g.proper
    have later := ih hm.1.ending.last
    have parts : ∀ (here : Cursor) (m : Match Slot) ms,
        words (replaceFrom [' '] here.offset here.rest (m :: ms)) =
        words (Span.mk here m.first).text ++ words
          (replaceFrom [' '] m.stop m.ending.last.rest ms) := fun here m ms => by
      rw [replaceFrom, List.append_assoc, words_append_gap space (by simp)]
      rfl
    rw [parts, parts, front]
    exact congrArg _ later

end Widening

/-- The parts of a parameter that a Java parameter is read off are told by a text with a further
blank, too. -/
theorem Java.parts_of_inside {d : Char} {u u' : Text} (hd : isBlank d = true) (h : Inside d u u') :
    ((Java.attributePattern.allMatches u).map fun m => collapse m.whole.text) =
        ((Java.attributePattern.allMatches u').map fun m => collapse m.whole.text) ∧
      words (Java.attributePattern.replaceAll [' '] u) = words
        (Java.attributePattern.replaceAll [' '] u') := by
  rcases h with rfl | ⟨a, b, rfl, rfl⟩
  · exact ⟨rfl, rfl⟩
  · let g : Widening := ⟨a, d, b, hd⟩
    have mark : Shy Text.isBlank (Java.attributePattern) := (shy_sign (by decide)).all_cons
    have found :
        List.Forall₂ (fun m m' => g.MatchAlike m m' ∧ True ∧ True)
          (Java.attributePattern.allMatches g.narrow)
        (Java.attributePattern.allMatches g.wide) :=
      Widening.forall₂_matchesUnless mark Widening.Java.agree_attributePattern
        (fun _ _ _ => trivial) fun _ _ _ _ => rfl
    exact ⟨map_eq_of_forall₂ found fun m m' hm => hm.1.widened.collapse_eq hd,
      Widening.words_replaceFrom found (.ahead (v := []) (u := a) rfl)⟩

theorem Java.parseParameter_widened {d : Char} {u u' : Text} (hd : isBlank d = true)
    (h : Widened d u u') :
    (Java.parseParameter u).blurred .java = (Java.parseParameter u').blurred .java := by
  have raw := h.trim hd
  obtain ⟨attributes, tokens⟩ := Java.parts_of_inside hd raw
  have text := (Widened.of_inside raw).collapse_eq hd
  simp only [Java.parseParameter, attributes, tokens]
  split
  · simp only [Parameter.blurred, text]
  · split
    · simp only [Parameter.blurred, text]
    · split <;> simp only [Parameter.blurred, text]

/-- The parameters of a list, up to blanks in their texts. -/
theorem map_parseParameters_widened {d : Char} {u u' : Text} (language : Language)
    (hd : isBlank d = true)
    (h : Widened d u u') : (language.parseParameters u).map (Parameter.blurred language) =
      (language.parseParameters u').map (Parameter.blurred language) := by
  rw [Language.parseParameters, Language.parseParameters, List.map_map, List.map_map]
  refine map_eq_of_forall₂ (h.splitParameters hd) fun t t' ht => ?_
  cases language with
  | csharp => exact CSharp.parseParameter_widened hd (.of_inside ht)
  | java => exact Java.parseParameter_widened hd (.of_inside ht)

end Source
end SourceSurvey
