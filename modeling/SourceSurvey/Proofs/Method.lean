import SourceSurvey.Proofs.Member

/-! Return types and names of methods. A return type is read lazily, so a method header is read as
it is written only where no shorter return type leaves a name and a parameter list behind it.
Between the return type and a sign behind the name stands one word, so a reading that ends the
return type earlier has to find such a sign inside the return type. -/

namespace SourceSurvey.Source

open Text Pattern

variable {here there : Cursor} {e e' : Ending Slot} {next : Next Slot} {b w rest : Text}

/-! ### Return types -/

/-- Whether a text is a letter or underscore with word characters and the given signs behind it. -/
def isTypeText (signs : Text) : Text → Bool
  | [] => false
  | c :: w => isNameStart c && w.all fun d => isWord d || signs.contains d

/-- The shortest return type that what follows allows. -/
def returnTypePart (signs : Text) : Pattern Slot :=
  mark .returnType (seq (one isNameStart) (lazyStar (typeCharacter signs)))

section ReturnType

variable {signs type : Text}

theorem mem_of_isTypeText (h : isTypeText signs type = true) :
    ∀ c ∈ type, isWord c = true ∨ c ∈ signs := by
  cases type with
  | nil => exact absurd h (by simp [isTypeText])
  | cons d type =>
    rw [isTypeText, Bool.and_eq_true, List.all_eq_true] at h
    intro c hc
    rcases List.mem_cons.mp hc with rfl | hc
    · exact .inl (isWord_of_isNameStart h.1)
    · simpa using h.2 c hc

theorem head?_of_isTypeText (h : isTypeText signs type = true) (rest : Text) :
    ∃ c, (type ++ rest).head? = some c ∧ isNameStart c = true := by
  cases type with
  | nil => exact absurd h (by simp [isTypeText])
  | cons c type =>
    rw [isTypeText, Bool.and_eq_true] at h
    exact ⟨c, rfl, h.1⟩

theorem isBlank_head?_of_isTypeText (h : isTypeText signs type = true) (rest : Text) :
    ∀ c ∈ (type ++ rest).head?, isBlank c = false := by
  intro c hc
  obtain ⟨d, hd, hs⟩ := head?_of_isTypeText h rest
  obtain rfl := Option.mem_unique hc hd
  exact isBlank_of_isNameStart hs

theorem notMem_of_isTypeText {s : Char} (h : isTypeText signs type = true) (hw : isWord s = false)
    (hs : s ∉ signs) :
    s ∉ type := by
  intro hm
  rcases mem_of_isTypeText h s hm with hw' | hs'
  · rw [hw] at hw'
    exact absurd hw' (by simp)
  · exact hs hs'

theorem not_blank_of_isTypeText (h : isTypeText signs type = true) : ¬Blank type := by
  intro hb
  obtain ⟨c, hc, hs⟩ := head?_of_isTypeText h []
  rw [List.append_nil] at hc
  have := hb c (List.mem_of_mem_head? hc)
  rw [isBlank_of_isNameStart hs] at this
  exact absurd this (by simp)

theorem leads_returnType (h : (returnTypePart signs).Leads here e there e') :
    ∃ type, isTypeText signs type = true ∧ here.rest = type ++ there.rest ∧
      e = e'.marked .returnType here there := by
  cases h with
  | mark h =>
    cases h with
    | seq h h' =>
      obtain ⟨c, hc, hr, rfl⟩ := leads_one h
      obtain ⟨w, hw, hr', rfl⟩ := leads_lazyStar_one h'
      refine ⟨c :: w, ?_, by rw [hr, hr']; rfl, rfl⟩
      rw [isTypeText, hc, Bool.true_and, List.all_eq_true]
      exact hw

/-- A return type ends no later than where a name and what belongs behind it are found. -/
theorem exists_run_returnType (ht : isTypeText signs type = true) (hr : here.rest = type ++ rest)
    (hn : (next (here.beyond type rest)).isSome = true) :
    ∃ u v e, u ++ v = type ∧ u ≠ [] ∧ next (here.beyond u (v ++ rest)) = some e ∧
      (returnTypePart signs).run here next =
        some (e.marked .returnType here (here.beyond u (v ++ rest))) ∧
      ∀ u' v', u' ++ v' = u → u' ≠ [] → v' ≠ [] →
        next (here.beyond u' (v' ++ (v ++ rest))) = none := by
  cases type with
  | nil => exact absurd ht (by simp [isTypeText])
  | cons c type =>
    rw [isTypeText, Bool.and_eq_true, List.all_eq_true] at ht
    let marked : Next Slot := fun there => (next there).map (.markEnd .returnType there)
    have found : (marked ((here.beyond [c] (type ++ rest)).beyond type rest)).isSome = true := by
      rw [Cursor.beyond_beyond, Option.isSome_map]
      exact hn
    obtain ⟨u, v, huv, hs, hrun, hshort⟩ := exists_run_lazyStar_one ht.2 rfl found
    obtain ⟨e, he⟩ := Option.isSome_iff_exists.mp hs
    rw [Cursor.beyond_beyond] at he
    obtain ⟨e, he', rfl⟩ := Option.map_eq_some_iff.mp he
    have first : (seq (one isNameStart) (lazyStar (typeCharacter signs))).run here marked =
        some (.markEnd .returnType (here.beyond (c :: u) (v ++ rest)) e) := by
      refine (prefers_one ht.1 hr).run_seq (hrun.trans ?_)
      rw [Cursor.beyond_beyond]
      exact he
    refine ⟨c :: u, v, e, by rw [List.cons_append, huv], by simp, he', ?_, ?_⟩
    · rw [returnTypePart, run, first]
      rfl
    · intro u' v' huv' hu' hv'
      obtain ⟨d, u', rfl⟩ := List.exists_cons_of_ne_nil hu'
      rw [List.cons_append] at huv'
      obtain ⟨rfl, hrest⟩ := List.cons.inj huv'
      have none := hshort u' v' hrest hv'
      rw [Cursor.beyond_beyond] at none
      exact Option.map_eq_none_iff.mp none

/-- A return type is read as it is written where no shorter one can be. -/
theorem run_returnType (ht : isTypeText signs type = true) (hr : here.rest = type ++ rest)
    (hn : ∀ u v, u ++ v = type → u ≠ [] → v ≠ [] → next (here.beyond u (v ++ rest)) = none)
    (he : next (here.beyond type rest) = some e) :
    (returnTypePart signs).run here next =
      some (e.marked .returnType here (here.beyond type rest)) := by
  have found : (next (here.beyond type rest)).isSome = true := by rw [he, Option.isSome_some]
  obtain ⟨u, v, e', huv, hu, he', hrun, -⟩ := exists_run_returnType ht hr found
  by_cases hv : v = []
  · subst hv
    rw [List.append_nil] at huv
    subst huv
    rw [List.nil_append, he, Option.some.injEq] at he'
    rw [hrun, ← he', List.nil_append]
  · rw [hn u v huv hu hv] at he'
    exact absurd he' (by simp)

end ReturnType

/-! ### The word in front of a sign -/

theorem append_sign_inj {s : Char} {a x y : Text} (ha : s ∉ a) (hb : s ∉ b)
    (h : a ++ s :: x = b ++ s :: y) :
    a = b ∧ x = y := by
  induction a generalizing b with
  | nil =>
    cases b with
    | nil => exact ⟨rfl, (List.cons.inj h).2⟩
    | cons d b => exact absurd (List.mem_cons.mpr (.inl (List.cons.inj h).1)) hb
  | cons c a ih =>
    cases b with
    | nil => exact absurd (List.mem_cons.mpr (.inl (List.cons.inj h).1.symm)) ha
    | cons d b =>
      obtain ⟨rfl, hrest⟩ := List.cons.inj h
      obtain ⟨rfl, rfl⟩ :=
        ih (fun hm => ha (List.mem_cons_of_mem c hm))
          (fun hm => hb (List.mem_cons_of_mem c hm)) hrest
      exact ⟨rfl, rfl⟩

/-- The first of some signs in a text is one character, and stands behind one text. -/
theorem append_end_inj {ends u v x y : Text} {c d : Char} (hu : ∀ f ∈ u, f ∉ ends)
    (hv : ∀ f ∈ v, f ∉ ends)
    (hc : c ∈ ends) (hd : d ∈ ends) (h : u ++ c :: x = v ++ d :: y) : u = v ∧ c = d ∧ x = y := by
  have drop {u : Text} {c : Char} {x : Text} (hu : ∀ f ∈ u, f ∉ ends) (hc : c ∈ ends) :
      (u ++ c :: x).dropWhile (fun f => !ends.contains f) = c :: x := by
    rw [List.dropWhile_append_of_pos (by simpa using hu), List.dropWhile_cons_of_neg (by simp [hc])]
  have same := congrArg (List.dropWhile fun f => !ends.contains f) h
  rw [drop hu hc, drop hv hd] at same
  obtain ⟨rfl, rfl⟩ := List.cons.inj same
  exact ⟨List.append_cancel_right h, rfl, rfl⟩

/-- Each of two different signs stands in front of the other one only in one of two texts. -/
theorem append_sign_ne {s s' : Char} {a x y : Text} (hne : s ≠ s') (ha : s' ∉ a) (hb : s ∉ b) :
    a ++ s :: x ≠ b ++ s' :: y := by
  induction a generalizing b with
  | nil =>
    cases b with
    | nil => exact fun h => hne (List.cons.inj h).1
    | cons d b => exact fun h => hb (List.mem_cons.mpr (.inl (List.cons.inj h).1))
  | cons c a ih =>
    cases b with
    | nil => exact fun h => ha (List.mem_cons.mpr (.inl (List.cons.inj h).1.symm))
    | cons d b =>
      exact fun h =>
        ih (fun hm => ha (List.mem_cons_of_mem c hm)) (fun hm => hb (List.mem_cons_of_mem d hm))
        (List.cons.inj h).2

/-- A sign that stands neither in words nor among blanks. -/
structure IsSign (s : Char) : Prop where
  noWord : isWord s = false
  noBlank : isBlank s = false

theorem isSign_parenthesis : IsSign '(' := ⟨by decide, by decide⟩

theorem IsSign.notMem_blank {s : Char} (h : IsSign s) (hb : Blank b) : s ∉ b := fun hm => by
  have := hb s hm
  rw [h.noBlank] at this
  exact absurd this (by simp)

theorem IsSign.notMem_identifier {s : Char} (h : IsSign s) (hw : isIdentifier w = true) :
    s ∉ w := fun hm => by
  have := isWord_of_isIdentifier hw s hm
  rw [h.noWord] at this
  exact absurd this (by simp)

/-- Blanks and a name, with or without blanks behind it. -/
def IsGapAndName (t : Text) : Prop :=
  ∃ gap name b, t = gap ++ (name ++ b) ∧ (Blank gap ∧ gap ≠ []) ∧ isIdentifier name = true ∧ Blank b

theorem IsGapAndName.length_words_append {t : Text} (h : IsGapAndName t) (v : Text) :
    (words (v ++ t)).length = (words v).length + 1 := by
  obtain ⟨gap, name, b, rfl, ⟨hg, hn⟩, hname, hb⟩ := h
  rw [words_append_gap hg hn, words_append_blank hb, words_of_isIdentifier hname,
    List.length_append, List.length_singleton]

theorem IsGapAndName.notMem {s : Char} {t : Text} (hs : IsSign s) (h : IsGapAndName t) : s ∉ t := by
  obtain ⟨gap, name, b, rfl, ⟨hg, -⟩, hname, hb⟩ := h
  simp [hs.notMem_blank hg, hs.notMem_identifier hname, hs.notMem_blank hb]

/-- One word stands in front of a sign, so all that stands in front of that word is blank. -/
theorem IsGapAndName.blank_of_eq {s : Char} {t u v x y : Text} (ht : IsGapAndName t)
    (hu : IsGapAndName u)
    (hs : IsSign s) (hv : s ∉ v) (he : v ++ (t ++ s :: x) = u ++ s :: y) : Blank v := by
  rw [← List.append_assoc] at he
  have hvt : s ∉ v ++ t := by simp [hv, ht.notMem hs]
  have front : v ++ t = u := (append_sign_inj hvt (hu.notMem hs) he).1
  have count : (words v).length + 1 = (words []).length + 1 := by
    rw [← ht.length_words_append, front, ← hu.length_words_append, List.nil_append]
  rw [← words_eq_nil_iff, ← List.length_eq_zero_iff]
  rw [words_nil, List.length_nil] at count
  omega

/-- The end of a text whose last character is no blank is not blank. -/
theorem not_blank_of_append {u v t : Text} (hl : ∀ c ∈ t.getLast?, isBlank c = false)
    (huv : u ++ v = t) (hv : v ≠ []) :
    ¬Blank v := by
  intro hb
  obtain ⟨c, hc⟩ := Option.isSome_iff_exists.mp (List.getLast?_isSome.mpr hv)
  have := hl c (by rw [← huv, List.getLast?_append_of_ne_nil _ hv]; exact hc)
  rw [hb c (List.mem_of_getLast? hc)] at this
  exact absurd this (by simp)

/-- A name is read behind its blanks where no word goes on. -/
theorem prefers_gap_name {gap name t : Text} (hg : Blank gap ∧ gap ≠ [])
    (hn : isIdentifier name = true)
    (hs : ∀ d ∈ t.head?, isWord d = false) (hr : here.rest = gap ++ (name ++ t)) :
    (someBlanks : Pattern Slot).Prefers here (here.beyond gap (name ++ t)) ∧
      (identifier : Pattern Slot).Prefers (here.beyond gap (name ++ t))
        ((here.beyond gap (name ++ t)).beyond name t) := by
  have noBlank : ∀ c ∈ (name ++ t).head?, isBlank c = false := by
    intro c hc
    rw [List.head?_append_of_ne_nil _ (ne_nil_of_isIdentifier hn)] at hc
    exact solid_of_isIdentifier hn c (List.mem_of_mem_head? hc)
  exact ⟨prefers_someBlanks hg.1 hg.2 hr noBlank, prefers_identifier hn rfl hs⟩

/-- A reading of a name and a parameter list begins with blanks and the name. -/
theorem leads_name_list {ps : List (Pattern Slot)}
    (h : (all (someBlanks :: named :: parameterList :: ps)).Leads here e there e') :
    ∃ t y, IsGapAndName t ∧ here.rest = t ++ '(' :: y := by
  obtain ⟨_, _, hgap, h⟩ := leads_all_cons.mp h
  obtain ⟨_, _, hname, h⟩ := leads_all_cons.mp h
  obtain ⟨_, _, hlist, -⟩ := leads_all_cons.mp h
  obtain ⟨gap, hg, hn, hr, rfl⟩ := leads_someBlanks hgap
  obtain ⟨name, hi, hr', rfl⟩ := leads_named hname
  obtain ⟨b, y, hb, hr''⟩ := leads_parameterList hlist
  exact ⟨gap ++ (name ++ b), y, ⟨gap, name, b, rfl, ⟨hg, hn⟩, hi, hb⟩, by simp [hr, hr', hr'']⟩

/-- No modifier is read in front of a return type that has none among its words. -/
theorem fails_modifierRound {keys : List Text} {type : Text} (hk : KeyWords keys)
    (ht : ∀ w ∈ words type, w ∉ keys)
    (hn : ¬Blank type) (hb : Blank b) (hb' : b ≠ []) (hr : here.rest = type ++ (b ++ rest)) :
    (modifierRound keys).Fails here := by
  refine fails_of_not_leads fun there e e' h => ?_
  obtain ⟨w, hw, gap, hg, hg', hr', -⟩ := leads_modifierRound h
  rw [hr] at hr'
  have same := congrArg words hr'
  rw [words_append_gap hb hb', words_append_gap hg hg', words_solid (hk.solid w hw) (hk.ne_nil hw)]
    at same
  obtain ⟨v, ws, hv⟩ := List.exists_cons_of_ne_nil fun h => hn (words_eq_nil_iff.mp h)
  rw [hv] at same
  obtain rfl := (List.cons.inj same).1
  exact ht v (by rw [hv]; exact List.mem_cons_self) hw

/-! ### The first header -/

theorem head?_memberHeaders {p : Pattern Slot} {t : Text}
    (h : p.run (Cursor.ofText t) stopHere = some e) :
    (memberHeaders p t).head? = some (MemberHeader.ofMatch ⟨Cursor.ofText t, e⟩) := by
  have hm : p.matchAt (Cursor.ofText t) = some ⟨Cursor.ofText t, e⟩ := congrArg (Option.map _) h
  have hr : endsInAttribute (Cursor.ofText t).before = false := rfl
  rw [memberHeaders, List.head?_map, head?_matchesUnless hm hr, Option.map_some]

theorem ofMatch_of_tells {parts : Slot → Option Text} (h : e.Tells parts) (first : Cursor) :
    MemberHeader.ofMatch ⟨first, e⟩ = {
      place := first
      name := (parts .name).getD []
      modifiers := words ((parts .modifiers).getD [])
      typeParameters := (parts .typeParameters).map collapse
      returnType := (parts .returnType).map collapse
      parameters := (parts .parameters).getD []
      throws := splitClause (parts .throws) } := by
  simp only [MemberHeader.ofMatch, Match.text, h first]

end SourceSurvey.Source
