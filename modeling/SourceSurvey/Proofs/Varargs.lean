import SourceSurvey.Proofs.JavaParameter

/-! Variadic parameters of Java. The ellipsis belongs to the type and stands behind it, in front of
the name, or glued between the two. If there is a blank on one side of it, the parameter is read as
an array with the name behind the ellipsis. Without a blank, the ellipsis is looked for inside of a
word only if this word is the whole parameter: a type of several words then loses its last one to
the name. -/

namespace SourceSurvey.Source.Java

open Text

variable {front : List Text} {t typeText name gap w z element : Text}

/-- The parameter is read as an array of the given type. -/
def ReadsVariadic (t typeText name : Text) : Prop := parseParameter t = {
  raw := trim t
  typeName := some (collapse typeText ++ ['[', ']'])
  name := some name
  variadic := true
  modifiers := []
  attributes := [] }

instance : Decidable (ReadsVariadic t typeText name) := inferInstanceAs (Decidable (_ = _))

/-- A type from which an ellipsis and a name glued to it can be told: it ends with a blank, or it is
a single word with another end than a dot. -/
def PartsGlued (t : Text) : Prop :=
  t.getLast?.any isBlank = true ∨ (words t).length = 1 ∧ t.getLast? ≠ some '.'

instance : Decidable (PartsGlued t) := inferInstanceAs (Decidable (_ ∨ _))

/-! ### Words with an ellipsis -/

/-- Without an at sign and the word `final` a parameter is read off its words. -/
theorem parseParameter_of_words {typeWords : List Text} {last : Text} (hm : '@' ∉ t)
    (hf : "final".toList ∉ words t) (hd : partVariadic (words t) = front ++ [last])
    (he : moveEllipsis front last = (typeWords, name)) (hn : typeWords ≠ []) : parseParameter t = {
      raw := trim t
      typeName :=
        some ((before? ellipsis ([' '].intercalate typeWords)).elim ([' '].intercalate typeWords)
        fun element => trimEnd element ++ ['[', ']'])
      name := some name
      variadic := (before? ellipsis ([' '].intercalate typeWords)).isSome
      modifiers := []
      attributes := [] } := by
  obtain ⟨a, b, split, -⟩ := exists_trim t
  have noMark : '@' ∉ trim t := fun h => hm (by rw [split]; simp [h])
  have plain : plainWords (trim t) = words t := (plainWords_eq_words noMark).trans (words_trim t)
  have other : ∀ v ∈ words t, v ≠ "final".toList := fun v hv he => hf (he ▸ hv)
  have kept : (words t).filter (· ≠ "final".toList) = words t :=
    List.filter_eq_self.mpr fun v hv => decide_eq_true (other v hv)
  have none : (words t).filter (· = "final".toList) = [] :=
    List.filter_eq_nil_iff.mpr fun v hv => by simpa using other v hv
  rw [parseParameter_eq (by rw [plain, kept, hd]) he hn, plain, none, annotationsOf_eq_nil noMark]

/-- An ellipsis at the end of the type makes the parameter variadic. -/
theorem readsVariadic_of_words {typeWords : List Text} {last : Text} (hm : '@' ∉ t)
    (hf : "final".toList ∉ words t) (hd : partVariadic (words t) = front ++ [last])
    (he : moveEllipsis front last = (typeWords, name))
    (ht : [' '].intercalate typeWords = element ++ ellipsis)
    (hc : trimEnd element = collapse typeText) :
    ReadsVariadic t typeText name := by
  have some : typeWords ≠ [] := by
    rintro rfl
    exact absurd ht.symm (by simp [ellipsis])
  rw [ReadsVariadic, parseParameter_of_words hm hf hd he some, before?_eq_some_iff.mpr ht,
    Option.elim_some, hc]
  rfl

/-- With other characters than an ellipsis in front of it the name is not reported as it is. -/
theorem name_parseParameter_ne (hm : '@' ∉ t) (hf : "final".toList ∉ words t)
    (hd : partVariadic (words t) = front ++ [z ++ name]) (hn : front ≠ []) (hz : z ≠ [])
    (hl : z.length ≠ ellipsis.length) :
    (parseParameter t).name ≠ some name := by
  have moved :
      (moveEllipsis front (z ++ name)).1 ≠ [] ∧ (moveEllipsis front (z ++ name)).2 ≠ name := by
    rw [moveEllipsis]
    cases ha : after? ellipsis (z ++ name) with
    | none => exact ⟨hn, fun he => hz (by simpa using he)⟩
    | some rest =>
      obtain ⟨ws, w, hw⟩ := (List.eq_nil_or_concat front).resolve_left hn
      have length := congrArg List.length (after?_eq_some_iff.mp ha)
      rw [List.length_append, List.length_append] at length
      rw [hw, List.concat_eq_append, List.getLast?_concat]
      exact ⟨by simp, fun (he : rest = name) => hl (Nat.add_right_cancel (he ▸ length))⟩
  rw [parseParameter_of_words hm hf hd rfl moved.1]
  exact fun he => moved.2 (Option.some.inj he)

/-! ### A blank on one side -/

/-- Blanks in front of an ellipsis are left out with it. -/
theorem exists_collapse_ellipsis (h : ¬Blank typeText) :
    ∃ element, collapse (typeText ++ ellipsis) = element ++ ellipsis ∧
      trimEnd element = collapse typeText := by
  obtain ⟨front, w, gap, rfl, hf, hw, hg⟩ := exists_last_word h
  have typeWords : words (front ++ (w ++ gap)) = words front ++ [w] := by
    rw [words_append_of_front hf, words_append_blank hg, words_solid hw.1 hw.2]
  by_cases hn : gap = []
  · have solid : Solid (w ++ ellipsis) :=
      fun c hc => (List.mem_append.mp hc).elim (hw.1 c) ((by decide : Solid ellipsis) c)
    have glued : words (front ++ (w ++ gap) ++ ellipsis) = words front ++ [w ++ ellipsis] := by
      rw [hn, List.append_nil, List.append_assoc, words_append_of_front hf,
        words_solid solid (by simp [hw.2])]
    exact ⟨_, by rw [collapse, glued, intercalate_concat_append, ← typeWords, ← collapse],
      trimEnd_collapse _⟩
  · have last : ∀ c ∈ (front ++ (w ++ gap)).getLast?, isBlank c = true := fun c hc => by
      rw [← List.append_assoc, List.getLast?_append_of_ne_nil _ hn] at hc
      exact hg c (List.mem_of_getLast? hc)
    have apart :
        words (front ++ (w ++ gap) ++ ellipsis) = words (front ++ (w ++ gap)) ++ [ellipsis] := by
      rw [words_append_of_front last, words_solid (w := ellipsis) (by decide) (by decide)]
    refine ⟨collapse (front ++ (w ++ gap)) ++ [' '], ?_, ?_⟩
    · rw [collapse, apart, intercalate_concat (by simp [typeWords]), ← collapse, List.append_assoc]
    · rw [trimEnd_append_blank (by decide), trimEnd_collapse]

/-- The ellipsis stands behind the type. -/
theorem readsVariadic_of_behind (ht : IsTypeText typeText) (hn : IsName name)
    (hf : name ≠ "final".toList) (hm : '@' ∉ t)
    (hw : words t = words (typeText ++ ellipsis) ++ [name]) : ReadsVariadic t typeText name := by
  obtain ⟨element, collapsed, trimmed⟩ := exists_collapse_ellipsis ht.some
  have some : words (typeText ++ ellipsis) ≠ [] := fun he => ht.some (words_eq_nil_iff.mp he).left
  have noFinal : "final".toList ∉ words (typeText ++ ellipsis) := fun h => by
    have dots : typeText ++ ellipsis = typeText ++ ['.'] ++ ['.'] ++ ['.'] := by simp [ellipsis]
    have sign : ∀ {x : Text}, "final".toList ∈ words (x ++ ['.']) →
        "final".toList ∈ words x := fun h =>
      (mem_wordsFrom_append_sign (by decide) h).resolve_right (by decide)
    rw [dots] at h
    exact ht.noFinal (sign (sign (sign h)))
  have other : "final".toList ∉ words t := fun h => by
    rw [hw] at h
    exact (List.mem_append.mp h).elim noFinal fun h => hf (List.mem_singleton.mp h).symm
  have noPrefix : ¬ellipsis <+: name := fun hp => hn.noEllipsis hp.isInfix
  exact readsVariadic_of_words hm other (hw ▸ partVariadic_append some name)
    (moveEllipsis_eq_self noPrefix _) collapsed trimmed

/-- The ellipsis stands in front of the name. -/
theorem readsVariadic_of_front (ht : IsTypeText typeText) (hm : '@' ∉ t)
    (hw : words t = words typeText ++ [ellipsis ++ name]) : ReadsVariadic t typeText name := by
  have some : words typeText ≠ [] := mt words_eq_nil_iff.mp ht.some
  obtain ⟨ws, w, hlast⟩ := (List.eq_nil_or_concat (words typeText)).resolve_left some
  rw [List.concat_eq_append] at hlast
  have moved : moveEllipsis (words typeText)
      (ellipsis ++ name) = (ws ++ [w ++ ellipsis], name) := by
    rw [moveEllipsis, after?_eq_some_iff.mpr rfl, hlast, List.getLast?_concat, List.dropLast_concat]
  have other : "final".toList ∉ words t := fun h => by
    rw [hw] at h
    exact (List.mem_append.mp h).elim ht.noFinal fun h =>
      absurd (List.mem_singleton.mp h) (by simp [ellipsis])
  refine readsVariadic_of_words hm other (hw ▸ partVariadic_append some _) moved ?_
    (trimEnd_collapse typeText)
  rw [intercalate_concat_append, ← hlast, collapse]

/-! ### A glued ellipsis -/

/-- In a word with an ellipsis the first one is that behind the type, but for dots at the end of the
type. -/
theorem splitOnce?_ellipsis (hw : ¬ellipsis <:+: w) (name : Text) : ∃ u z, w = u ++ z ∧
    splitOnce? ellipsis (w ++ (ellipsis ++ name)) = some (u, z ++ name) ∧
      z.length < ellipsis.length ∧
      (z = [] ↔ w.getLast? ≠ some '.') := by
  cases hs : splitOnce? ellipsis (w ++ (ellipsis ++ name)) with
  | none => exact absurd ⟨w, name, by rw [List.append_assoc]⟩ (splitOnce?_eq_none_iff.mp hs)
  | some p =>
    obtain ⟨u, v⟩ := p
    obtain ⟨split, first⟩ := splitOnce?_eq_some hs
    obtain ⟨z, rfl⟩ : u <+: w :=
      List.prefix_of_prefix_length_le ⟨_, split.symm⟩ (List.prefix_append w _) (first w name rfl)
    rw [List.append_assoc] at split
    have behind : z ++ (ellipsis ++ name) = ellipsis ++ v := List.append_cancel_left split
    have noEllipsis : ¬ellipsis <+: z :=
      fun hp => hw (hp.isInfix.trans (List.suffix_append u z).isInfix)
    have short : z <+: ellipsis :=
      (List.prefix_or_prefix_of_prefix ⟨_, behind⟩ (List.prefix_append ellipsis v)).resolve_right
        noEllipsis
    -- the dots at the end of the type stand in front of the name
    have inits : z ∈ ellipsis.inits := (List.mem_inits z ellipsis).mpr short
    simp only [ellipsis, List.inits, List.map_cons, List.map_nil, List.mem_cons, List.not_mem_nil,
      or_false] at inits
    rcases inits with rfl | rfl | rfl | rfl
    · obtain rfl : name = v := List.append_cancel_left behind
      refine ⟨u, [], rfl, rfl, by decide, iff_of_true rfl fun hd => ?_⟩
      rw [List.append_nil] at hd first
      obtain ⟨x, rfl⟩ := List.getLast?_eq_some_iff.mp hd
      have earlier := first x ('.' :: name) (by simp [ellipsis])
      rw [List.length_append] at earlier
      exact absurd earlier (by simp)
    · obtain rfl : ['.'] ++ name = v := by simpa [ellipsis] using behind
      exact ⟨u, ['.'], rfl, rfl, by decide, by simp⟩
    · obtain rfl : ['.', '.'] ++ name = v := by simpa [ellipsis] using behind
      exact ⟨u, ['.', '.'], rfl, rfl, by decide, by simp⟩
    · exact absurd (List.prefix_refl ellipsis) noEllipsis

theorem partVariadic_ellipsis (hw : ¬ellipsis <:+: w) (name : Text) : ∃ u z, w = u ++ z ∧
    partVariadic [w ++ (ellipsis ++ name)] = [u ++ ellipsis] ++ [z ++ name] ∧
      z.length < ellipsis.length ∧
      (z = [] ↔ w.getLast? ≠ some '.') := by
  obtain ⟨u, z, split, cut, short, dots⟩ := splitOnce?_ellipsis hw name
  refine ⟨u, z, split, ?_, short, dots⟩
  rw [partVariadic, cut]
  rfl

theorem IsTypeText.noEllipsis_of_mem (h : IsTypeText typeText) (hw : w ∈ words typeText) :
    ¬ellipsis <:+: w := fun hi =>
  h.noEllipsis (hi.trans (infix_of_mem_wordsFrom hw))

/-- The words of a type with an ellipsis and a name glued to it. -/
theorem exists_words_glued (ht : ¬Blank typeText) (hn : Solid name) :
    typeText.getLast?.any isBlank = true ∧
      words (typeText ++ (ellipsis ++ name)) = words typeText ++ [ellipsis ++ name] ∨
      ∃ ws w, words typeText = ws ++ [w] ∧ typeText.getLast? = w.getLast? ∧
        typeText.getLast?.any isBlank = false ∧
        words (typeText ++ (ellipsis ++ name)) = ws ++ [w ++ (ellipsis ++ name)] := by
  have solid : Solid (ellipsis ++ name) :=
    fun c hc => (List.mem_append.mp hc).elim ((by decide : Solid ellipsis) c) (hn c)
  obtain ⟨front, w, gap, rfl, hf, hw, hg⟩ := exists_last_word ht
  by_cases hgap : gap = []
  · subst hgap
    have solid' : Solid (w ++ (ellipsis ++ name)) :=
      fun c hc => (List.mem_append.mp hc).elim (hw.1 c) (solid c)
    have last : (front ++ (w ++ [])).getLast? = w.getLast? := by
      rw [List.append_nil, List.getLast?_append_of_ne_nil _ hw.2]
    refine .inr ⟨words front, w, ?_, last, ?_, ?_⟩
    · rw [List.append_nil, words_append_of_front hf, words_solid hw.1 hw.2]
    · rw [last, List.getLast?_eq_some_getLast hw.2, Option.any_some, hw.1 _ (List.getLast_mem hw.2)]
    · rw [List.append_nil, List.append_assoc, words_append_of_front hf,
        words_solid solid' (by simp [hw.2])]
  · have last : (front ++ (w ++ gap)).getLast? = some (gap.getLast hgap) := by
      rw [← List.append_assoc, List.getLast?_append_of_ne_nil _ hgap,
        List.getLast?_eq_some_getLast hgap]
    have blank := hg _ (List.getLast_mem hgap)
    refine .inl ⟨by rw [last, Option.any_some, blank], ?_⟩
    rw [words_append_of_front (fun c hc => Option.some.inj (last.symm.trans hc) ▸ blank),
      words_solid solid (by simp [ellipsis])]

theorem final_notMem_glued {ws : List Text} (h : "final".toList ∉ ws ++ [w]) (name : Text) :
    "final".toList ∉ ws ++ [w ++ (ellipsis ++ name)] := fun hm => by
  rcases List.mem_append.mp hm with hm | hm
  · exact h (List.mem_append_left _ hm)
  · have dot : '.' ∈ "final".toList := List.mem_singleton.mp hm ▸ by simp [ellipsis]
    exact absurd dot (by decide)

section Glued

variable (ht : IsTypeText typeText) (hn : IsName name)
include ht hn

theorem readsVariadic_glued (hp : PartsGlued typeText) :
    ReadsVariadic (typeText ++ (ellipsis ++ name)) typeText name := by
  have noMark : '@' ∉ typeText ++ (ellipsis ++ name) := by simp [ellipsis, ht.noMark, hn.noMark]
  rcases exists_words_glued ht.some hn.solid.1
    with ⟨-, apart⟩ | ⟨ws, w, typeWords, last, noBlank, glued⟩
  · exact readsVariadic_of_front ht noMark apart
  · have noFinal : "final".toList ∉ words (typeText ++ (ellipsis ++ name)) :=
      glued ▸ final_notMem_glued (typeWords ▸ ht.noFinal) name
    obtain ⟨single, noDot⟩ := hp.resolve_left (by simp [noBlank])
    rw [typeWords, List.length_append, List.length_singleton, Nat.add_eq_right,
      List.length_eq_zero_iff] at single
    subst single
    rw [List.nil_append] at typeWords glued
    obtain ⟨u, z, split, parts, -, dots⟩ :=
      partVariadic_ellipsis (ht.noEllipsis_of_mem (typeWords ▸ List.mem_singleton_self w)) name
    obtain rfl : z = [] := dots.mpr (last ▸ noDot)
    obtain rfl : w = u := split.trans (List.append_nil u)
    have noPrefix : ¬ellipsis <+: name := fun hp => hn.noEllipsis hp.isInfix
    have single : collapse typeText = w := by rw [collapse, typeWords, List.intercalate_singleton]
    refine readsVariadic_of_words noMark noFinal (glued ▸ parts) (moveEllipsis_eq_self noPrefix _)
      (List.intercalate_singleton ..) ?_
    rw [← single, trimEnd_collapse]

/-- The last word of a type of several words is taken for a part of the name. -/
theorem name_glued_ne (hp : ¬PartsGlued typeText) :
    (parseParameter (typeText ++ (ellipsis ++ name))).name ≠ some name := by
  have noMark : '@' ∉ typeText ++ (ellipsis ++ name) := by simp [ellipsis, ht.noMark, hn.noMark]
  rcases exists_words_glued ht.some hn.solid.1 with ⟨blank, -⟩ | ⟨ws, w, typeWords, last, -, glued⟩
  · exact absurd (.inl blank) hp
  have noFinal : "final".toList ∉ words (typeText ++ (ellipsis ++ name)) :=
    glued ▸ final_notMem_glued (typeWords ▸ ht.noFinal) name
  by_cases hws : ws = []
  · -- the ellipsis is found, but it begins with a dot of the type
    subst hws
    rw [List.nil_append] at typeWords glued
    have dot : ¬w.getLast? ≠ some '.' := fun hd => hp (.inr ⟨by rw [typeWords]; rfl, last ▸ hd⟩)
    obtain ⟨u, z, -, parts, short, dots⟩ :=
      partVariadic_ellipsis (ht.noEllipsis_of_mem (typeWords ▸ List.mem_singleton_self w)) name
    exact name_parseParameter_ne noMark noFinal (glued ▸ parts) (List.cons_ne_nil _ _)
      (mt dots.mp dot) (Nat.ne_of_lt short)
  · have some : w ≠ [] :=
      (solid_of_mem_words (typeWords ▸ List.mem_append_right ws (List.mem_singleton_self w))).2
    have parts : partVariadic (ws ++ [w ++ (ellipsis ++ name)]) =
        ws ++ [(w ++ ellipsis) ++ name] := by
      rw [partVariadic_append hws, List.append_assoc]
    exact name_parseParameter_ne noMark noFinal (glued ▸ parts) hws (by simp [some])
      (by simpa using some)

end Glued

/-- An ellipsis with a blank behind it or in front of it is read alike, whatever the words of the
type. A glued one is read so exactly if the type ends with a blank or is a single word that does not
end with a dot, and else with another name. -/
theorem parseParameter_ellipsis (ht : IsTypeText typeText) (hn : IsName name)
    (hg : Blank gap ∧ gap ≠ []) :
    (name ≠ "final".toList →
      ReadsVariadic (typeText ++ (ellipsis ++ (gap ++ name))) typeText name) ∧
      ReadsVariadic (typeText ++ (gap ++ (ellipsis ++ name))) typeText name ∧
      (PartsGlued typeText → ReadsVariadic (typeText ++ (ellipsis ++ name)) typeText name) ∧
      (¬PartsGlued typeText →
        (parseParameter (typeText ++ (ellipsis ++ name))).name ≠ some name) := by
  have noGap : '@' ∉ gap := fun hm => absurd (hg.1 '@' hm) (by decide)
  have solid : Solid (ellipsis ++ name) :=
    fun c hc => (List.mem_append.mp hc).elim ((by decide : Solid ellipsis) c) (hn.solid.1 c)
  refine ⟨fun hf => readsVariadic_of_behind ht hn hf ?_ ?_, readsVariadic_of_front ht ?_ ?_,
    readsVariadic_glued ht hn, name_glued_ne ht hn⟩
  · simp [ellipsis, ht.noMark, hn.noMark, noGap]
  · rw [← List.append_assoc, words_append_gap hg.1 hg.2, words_solid hn.solid.1 hn.solid.2]
  · simp [ellipsis, ht.noMark, hn.noMark, noGap]
  · rw [words_append_gap hg.1 hg.2, words_solid solid (by simp [ellipsis])]

/-- A type of two words. -/
def mapType : Text := "Map<K, V>".toList

theorem isTypeText_mapType : IsTypeText mapType := ⟨by decide, by decide, by decide, by decide⟩

theorem isName_args : IsName "args".toList := ⟨by decide, by decide, by decide⟩

theorem parseParameter_ellipsis_mapType :
    (IsTypeText mapType ∧ IsName "args".toList ∧ Blank [' '] ∧ "args".toList ≠ "final".toList ∧
      ¬PartsGlued mapType ∧
      ReadsVariadic "Map<K, V>... args".toList mapType "args".toList ∧
      ReadsVariadic "Map<K, V> ...args".toList mapType "args".toList ∧
      (parseParameter "Map<K, V>...args".toList).name ≠ some "args".toList) ∧
    IsTypeText "String".toList ∧ PartsGlued "String".toList ∧
      ReadsVariadic "String...args".toList "String".toList "args".toList := by
  have string : IsTypeText "String".toList := ⟨by decide, by decide, by decide, by decide⟩
  have gap : Blank [' '] ∧ [' '] ≠ [] := by decide
  obtain ⟨behind, inFront, -, other⟩ := parseParameter_ellipsis isTypeText_mapType isName_args gap
  obtain ⟨-, -, glued, -⟩ := parseParameter_ellipsis string isName_args gap
  exact ⟨⟨isTypeText_mapType, isName_args, gap.1, by decide, by decide, behind (by decide), inFront,
    other (by decide)⟩, string, by decide, glued (by decide)⟩

/-- With a glued ellipsis the map is torn apart at its blank, and its second part is reported in the
name. -/
theorem glued_mapType :
    IsTypeText mapType ∧ IsName "args".toList ∧
      mapType ++ (ellipsis ++ "args".toList) = "Map<K, V>...args".toList ∧
      parseParameter "Map<K, V>...args".toList = {
        raw := "Map<K, V>...args".toList
        typeName := some "Map<K,".toList
        name := some "V>...args".toList
        variadic := false
        modifiers := []
        attributes := [] } ∧
      ¬ReadsVariadic "Map<K, V>...args".toList mapType "args".toList :=
  ⟨isTypeText_mapType, isName_args, by decide, by decide +kernel, by decide +kernel⟩

end SourceSurvey.Source.Java
