import SourceSurvey.Proofs.TypePart

/-! Names of types. A name may have type parameters and components behind it. Components end at the
first closing parenthesis; type parameters end at the first closing bracket from which the rest of
the header can be read, so no closing bracket inside them may have a key word behind it. -/

namespace SourceSurvey.Source

open Text Pattern

variable {here there : Cursor} {e e' : Ending Slot} {ps : List (Pattern Slot)} {signs : Text}
  {keys : List Text} {v rest : Text} {c : Char}

/-- The name of a type with its type parameters and components, as they stand in a text. -/
structure NameText where
  beforeName : Text
  name : Text
  /-- The text between the angle brackets, behind the blanks in front of them. -/
  typeParameters : Option (Text × Text)
  /-- The text between the parentheses, behind the blanks in front of them. -/
  components : Option (Text × Text)

namespace NameText

def typeParametersText (n : NameText) : Text :=
  match n.typeParameters with
  | none => []
  | some (gap, inner) => gap ++ bracketed inner

def componentsText (n : NameText) : Text :=
  match n.components with
  | none => []
  | some (gap, inner) => gap ++ '(' :: (inner ++ [')'])

def text (n : NameText) : Text :=
  n.beforeName ++ (n.name ++ (n.typeParametersText ++ n.componentsText))

end NameText

/-- The characters that the type parameters of a type may not hold. -/
def typeBarred : Text := ['{', '}', '(', ')', ';']

/-- No closing bracket of a text has blanks and one of the key words behind it. -/
def NoKeyBehind (keys : List Text) (inner : Text) : Prop :=
  ∀ t ∈ inner.tails, t.head? = some '>' → t.tail.head?.any isBlank = true →
    ∀ w ∈ (words t.tail).head?, w ∉ keys

instance (keys : List Text) (inner : Text) : Decidable (NoKeyBehind keys inner) :=
  inferInstanceAs (Decidable (∀ t ∈ inner.tails, _))

/-- A name as a text has it in front of parts that begin with the given signs and key words. -/
structure NameText.IsWritten (signs : Text) (keys : List Text) (n : NameText) : Prop where
  beforeName : Blank n.beforeName ∧ n.beforeName ≠ []
  name : isIdentifier n.name = true
  typeParameters : ∀ p ∈ n.typeParameters, Blank p.1 ∧ p.2 ≠ [] ∧
    ∀ c ∈ p.2, c ∉ typeBarred ∧ c ∉ signs
  closing : ∀ p ∈ n.typeParameters, NoKeyBehind keys p.2
  components : ∀ p ∈ n.components, Blank p.1 ∧ ')' ∉ p.2

/-- The brackets of a name. -/
def nameBrackets : Text := ['<', '>', '(']

/-- The type parameters of a type, with the blanks in front of them. -/
def typeParametersPart : Pattern Slot :=
  optional (mark .typeParameters (seq blanks (angleGroup typeBarred)))

section NameText

variable {n : NameText} {gap inner : Text} {parts : Slot → Option Text}

theorem isSign_of_mem_nameBrackets (hc : c ∈ nameBrackets) : IsSign c := by
  simp only [nameBrackets, List.mem_cons, List.not_mem_nil, or_false] at hc
  rcases hc with rfl | rfl | rfl <;> exact ⟨by decide, by decide⟩

theorem run_components (hg : Blank gap) (hi : ')' ∉ inner)
    (hr : here.rest = gap ++ '(' :: (inner ++ ')' :: rest))
    (he : (all ps).run (here.beyond (gap ++ '(' :: (inner ++ [')'])) rest) stopHere = some e) :
    (all (componentList :: ps)).run here stopHere =
      some (e.marked .components (here.beyond (gap ++ ['(']) (inner ++ ')' :: rest))
        ((here.beyond (gap ++ ['(']) (inner ++ ')' :: rest)).beyond inner (')' :: rest))) := by
  have blank : (blanks : Pattern Slot).Prefers here _ := prefers_blanks hg hr fun c hc => by
    rw [← Option.mem_some_iff.mp hc]
    decide
  have opens :
    (sign '(' : Pattern Slot).Prefers (here.beyond gap ('(' :: (inner ++ ')' :: rest))) _ :=
      prefers_sign rfl
  have inside :
      (star (noneOf [')']) : Pattern Slot).Prefers
        (here.beyond (gap ++ ['(']) (inner ++ ')' :: rest)) _ :=
    prefers_star_one (fun c hc => by simpa using ne_of_mem_of_not_mem hc hi) rfl fun c hc => by
      rw [← Option.mem_some_iff.mp hc]
      decide
  have closes : (all [sign ')'] : Pattern Slot).Prefers
      ((here.beyond (gap ++ ['(']) (inner ++ ')' :: rest)).beyond inner (')' :: rest)) _ :=
        prefers_sign rfl
  have found :
      (all [sign ')']).run
        ((here.beyond (gap ++ ['(']) (inner ++ ')' :: rest)).beyond inner (')' :: rest))
      (fun there => (all ps).run there stopHere) = some e := closes _ _ (by simpa using he)
  rw [Cursor.beyond_beyond] at opens
  exact run_optional_cons (blank.run_all (opens.run_all (inside.run_all_mark found)))

theorem exists_run_components (h : n.IsWritten signs keys) (hm : Marked signs keys)
    (hs : ∀ c ∈ nameBrackets, c ∉ signs)
    (hp : OpensWith (all ps) signs keys) (hr : here.rest = n.componentsText ++ rest)
    (he : (all ps).run (here.beyond n.componentsText rest) stopHere = some e) (ht : e.Tells parts)
    (hn : parts .components = none) :
    ∃ e', (all (componentList :: ps)).run here stopHere = some e' ∧
      e'.Tells fun slot => if slot = .components then n.components.map (·.2) else parts slot := by
  rw [NameText.componentsText] at hr he
  cases hc : n.components with
  | none =>
    simp only [hc, List.nil_append] at hr he
    rw [← hr, Cursor.beyond_nil] at he
    have absent :
        (all [blanks, sign '(', mark Slot.components (star (noneOf [')'])), sign ')']).Fails here :=
      fails_sign_part hm (isSign_of_mem_nameBrackets (by decide))
        (hs '(' (by decide)) (hp.of_run he)
    exact ⟨e, (prefers_optional_of_fails absent).run_all he, tells_of_absent ht hn⟩
  | some p =>
    obtain ⟨gap, inner⟩ := p
    obtain ⟨hg, hi⟩ := h.components _ hc
    simp only [hc, List.append_assoc, List.cons_append, List.nil_append] at hr he
    exact ⟨_, run_components hg hi hr he, ht.marked rfl⟩

/-- Where nothing can follow a closing bracket inside a text, nothing begins behind it. -/
theorem not_opens_closing (hm : Marked signs keys) (hs : '>' ∉ signs) (hv : ∀ c ∈ v, c ∉ signs)
    (hw : v.head?.any isBlank = true → ∀ w ∈ (words v).head?, w ∉ keys) :
    ¬Opens signs keys (v ++ '>' :: rest) := by
  by_cases hb : Blank v
  · intro ho
    rcases ho.mem_or_isWord hm hb (by decide) rfl with h | h
    · exact hs h
    · exact absurd h (by decide)
  · refine not_opens hm hb hv (fun c hc => ?_) hw
    rw [← Option.mem_some_iff.mp hc]
    decide

theorem run_typeParametersPart (hm : Marked signs keys) (hs : '>' ∉ signs)
    (hp : OpensWith (all ps) signs keys)
    (hg : Blank gap) (hn : inner ≠ []) (hi : ∀ c ∈ inner, c ∉ typeBarred ∧ c ∉ signs)
    (hc : NoKeyBehind keys inner)
    (hr : here.rest = (gap ++ bracketed inner) ++ rest)
    (he : (all ps).run (here.beyond (gap ++ bracketed inner) rest) stopHere = some e) :
    (all (typeParametersPart :: ps)).run here stopHere =
      some (e.marked .typeParameters here (here.beyond (gap ++ bracketed inner) rest)) := by
  let marked : Next Slot :=
    fun there => ((all ps).run there stopHere).map (.markEnd .typeParameters there)
  have blank : (blanks : Pattern Slot).Prefers here (here.beyond gap (bracketed inner ++ rest)) :=
    prefers_blanks hg (by rw [hr, List.append_assoc]) fun c hc => by
      rw [← Option.mem_some_iff.mp hc]
      decide
  have early : ∀ u v, u ++ '>' :: v = inner →
      marked ((here.beyond gap (bracketed inner ++ rest)).beyond (bracketed u) (v ++ '>' :: rest)) =
        none := by
    intro u v huv
    refine Option.map_eq_none_iff.mpr (run_eq_none fun there e e' hl => ?_)
    have closed := hc ('>' :: v) ((List.mem_tails _ _).mpr ⟨u, huv⟩) rfl
    have free : ∀ c ∈ v, c ∉ signs := fun c hc => (hi c (by simp [← huv, hc])).2
    exact absurd (hp _ _ _ _ hl) (not_opens_closing hm hs free closed)
  have last : marked ((here.beyond gap (bracketed inner ++ rest)).beyond (bracketed inner) rest) =
      some (.markEnd .typeParameters (here.beyond (gap ++ bracketed inner) rest) e) := by
    rw [Cursor.beyond_beyond]
    exact congrArg (Option.map _) he
  have group := run_angleGroup (fun c hc => (hi c hc).1) hn rfl early last
  have part : (seq blanks (angleGroup typeBarred)).run here marked = _ := blank.run_seq group
  exact run_optional_cons (congrArg (Option.map _) part)

theorem exists_run_typeParameters (h : n.IsWritten signs keys) (hm : Marked signs keys)
    (hs : ∀ c ∈ nameBrackets, c ∉ signs) (hp : OpensWith (all ps) signs keys)
    (hr : here.rest = n.typeParametersText ++ (n.componentsText ++ rest))
    (he : (all (componentList :: ps)).run
    (here.beyond n.typeParametersText (n.componentsText ++ rest)) stopHere = some e)
    (ht : e.Tells parts) (hn : parts .typeParameters = none) :
    ∃ e', (all (typeParametersPart :: componentList :: ps)).run here stopHere = some e' ∧
      e'.Tells fun slot => if slot = .typeParameters then n.typeParameters.map fun p =>
        p.1 ++ bracketed p.2
        else parts slot := by
  have components : IsSign '(' := isSign_parenthesis
  have hm' : Marked ('(' :: signs) keys := hm.cons components
  have hp' : OpensWith (all (componentList :: ps)) ('(' :: signs) keys := hp.sign_cons
  rw [NameText.typeParametersText] at hr he
  cases hc : n.typeParameters with
  | none =>
    simp only [hc, List.nil_append] at hr he
    rw [← hr, Cursor.beyond_nil] at he
    have absent :
        (all [blanks, sign '<', lazyPlus (noneOf typeBarred), sign '>'] : Pattern Slot).Fails
          here :=
      fails_sign_part hm' (isSign_of_mem_nameBrackets (by decide))
        (List.not_mem_cons_of_ne_of_not_mem (by decide) (hs '<' (by decide))) (hp'.of_run he)
    have absent' :
        (mark Slot.typeParameters (seq blanks (angleGroup typeBarred)) : Pattern Slot).Fails here :=
      fun next => congrArg (Option.map _) (absent _)
    exact ⟨e, (prefers_optional_of_fails absent').run_all he, tells_of_absent ht hn⟩
  | some p =>
    obtain ⟨gap, inner⟩ := p
    obtain ⟨hg, hn, hi⟩ := h.typeParameters _ hc
    simp only [hc] at hr he
    have hi' : ∀ c ∈ inner, c ∉ typeBarred ∧ c ∉ '(' :: signs := fun c hc =>
      ⟨(hi c hc).1,
        List.not_mem_cons_of_ne_of_not_mem (fun h => (hi c hc).1 (h ▸ by decide)) (hi c hc).2⟩
    have closes : '>' ∉ '(' :: signs :=
      List.not_mem_cons_of_ne_of_not_mem (by decide) (hs '>' (by decide))
    exact ⟨_, run_typeParametersPart hm' closes hp' hg hn hi' (h.closing _ hc) hr he, ht.marked hr⟩

/-- No word goes on behind a name. -/
theorem NameText.noWord_behind (h : n.IsWritten signs keys) (hm : Marked signs keys)
    (ho : Opens signs keys rest) :
    ∀ c ∈ (n.typeParametersText ++ (n.componentsText ++ rest)).head?, isWord c = false := by
  have components : ∀ c ∈ (n.componentsText ++ rest).head?, isWord c = false := by
    rw [componentsText]
    cases hc : n.components with
    | none => exact ho.noWord hm
    | some p =>
      simp only [List.append_assoc, List.cons_append]
      exact head?_blank_append_sign (h.components _ hc).1 (by decide) _
  rw [typeParametersText]
  cases hc : n.typeParameters with
  | none => exact components
  | some p =>
    simp only [bracketed, List.append_assoc, List.cons_append]
    exact head?_blank_append_sign (h.typeParameters _ hc).1 (by decide) _

/-- A name is read with its parts in front of whatever begins with one of the signs or key words. -/
theorem exists_run_typeName (h : n.IsWritten signs keys) (hm : Marked signs keys)
    (hs : ∀ c ∈ nameBrackets, c ∉ signs)
    (hp : OpensWith (all ps) signs keys) (hr : here.rest = n.text ++ rest)
    (he : (all ps).run (here.beyond n.text rest) stopHere = some e) (ht : e.Tells parts)
    (hn : parts .components = none ∧ parts .typeParameters = none) :
    ∃ e', (all (someBlanks :: named :: typeParametersPart :: componentList :: ps)).run here
      stopHere = some e' ∧
      e'.Tells fun slot => if slot = .name then some n.name
        else if slot = .typeParameters then n.typeParameters.map fun p => p.1 ++ bracketed p.2
        else if slot = .components then n.components.map (·.2) else parts slot := by
  have ho : Opens signs keys rest := hp.of_run he
  let behind := n.typeParametersText ++ (n.componentsText ++ rest)
  have hr : here.rest = n.beforeName ++ (n.name ++ behind) := by
    rw [hr]
    simp only [NameText.text, List.append_assoc, behind]
  obtain ⟨gap, name⟩ := prefers_gap_name h.beforeName h.name (NameText.noWord_behind h hm ho) hr
  let place := (here.beyond n.beforeName (n.name ++ behind)).beyond n.name behind
  have text :
      (place.beyond n.typeParametersText (n.componentsText ++ rest)).beyond n.componentsText rest =
      here.beyond n.text rest := by simp [place, NameText.text]
  let later := place.beyond n.typeParametersText (n.componentsText ++ rest)
  have hplace : place.rest = n.typeParametersText ++ (n.componentsText ++ rest) := rfl
  have hlater : later.rest = n.componentsText ++ rest := rfl
  obtain ⟨e₁, hrun₁, ht₁⟩ := exists_run_components h hm hs hp hlater (text ▸ he) ht hn.1
  obtain ⟨e₂, hrun₂, ht₂⟩ :=
    exists_run_typeParameters h hm hs hp hplace hrun₁ ht₁ (by simpa using hn.2)
  exact ⟨_, gap.run_all (name.run_all_mark hrun₂), ht₂.marked rfl⟩

end NameText

/-! ### Key words of kinds -/

theorem words_keyword (kind : TypeKind) : words kind.keyword = [kind.keyword] := by
    cases kind <;> decide

theorem head?_keyword_append (kind : TypeKind) (t : Text) :
    ∀ c ∈ (kind.keyword ++ t).head?, isBlank c = false := by
  intro c hc
  cases kind <;> exact Option.mem_some_iff.mp hc ▸ by decide

/-- The modifiers end where the key word of a kind stands. -/
theorem fails_modifierRound_keyword {kind : TypeKind} {modifiers : List Text} {gap t : Text}
    (hk : KeyWords modifiers) (hn : kind.keyword ∉ modifiers) (hg : Blank gap ∧ gap ≠ [])
    (hr : here.rest = kind.keyword ++ (gap ++ t)) :
    (modifierRound modifiers).Fails here := by
  refine fails_modifierRound hk (fun w hw => ?_) (by cases kind <;> decide) hg.1 hg.2 hr
  rw [words_keyword, List.mem_singleton] at hw
  exact hw ▸ hn

end SourceSurvey.Source
