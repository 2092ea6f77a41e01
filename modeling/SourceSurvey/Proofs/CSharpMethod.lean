import SourceSurvey.Proofs.Method
import SourceSurvey.Source.Extraction

/-! Method headers of C# as they are written. A header is modifiers, a return type, a name, type
parameters, a parameter list and constraints, with blanks between. The first method header that is
found is that one, unless it has type parameters and its return type holds a generic type with
blanks in front of it. There the return type is read only up to these blanks: the generic type is
taken for the name, and what is left of the header up to the parameter list for its type parameters.
-/

namespace SourceSurvey.Source.CSharp

open Text Pattern

/-- The parts of a method header as they stand in a text, with the blanks between them. -/
structure MethodText where
  /-- Each with the blanks behind it. -/
  modifiers : List (Text × Text)
  returnType : Text
  beforeName : Text
  name : Text
  /-- The blanks in front of the angle brackets, and the text between them. -/
  typeParameters : Option (Text × Text)
  beforeList : Text
  parameters : Text
  beforeWhere : Text
  afterWhere : Text
  constraints : Option Text
  beforeEnd : Text
  ending : Text

namespace MethodText

def typeParametersText (m : MethodText) : Text :=
  match m.typeParameters with
  | none => []
  | some (gap, inner) => gap ++ bracketed inner

/-- The constraints behind their key word; nothing at all where there are none. -/
def constraintsText (m : MethodText) : Text :=
  match m.constraints with
  | none => []
  | some clause => m.beforeWhere ++ ("where".toList ++ (m.afterWhere ++ clause))

/-- What stands behind the parameter list. -/
def tail (m : MethodText) (rest : Text) : Text :=
  m.constraintsText ++ (m.beforeEnd ++ (m.ending ++ rest))

/-- What stands behind the name and its type parameters. -/
def list (m : MethodText) (rest : Text) : Text :=
  m.beforeList ++ '(' :: (m.parameters ++ ')' :: m.tail rest)

/-- What stands behind the return type. -/
def nameAndList (m : MethodText) (rest : Text) : Text :=
  m.beforeName ++ (m.name ++ (m.typeParametersText ++ m.list rest))

def text (m : MethodText) : Text := spaced m.modifiers ++ (m.returnType ++ m.nameAndList [])

/-- The header with its parts, at the start of its text and what stands behind it. -/
def header (m : MethodText) (trailing : Text) : MemberHeader where
  place := Cursor.ofText (m.text ++ trailing)
  name := m.name
  modifiers := m.modifiers.map (·.1)
  typeParameters := m.typeParameters.map fun p => collapse (bracketed p.2)
  returnType := some (collapse m.returnType)
  parameters := m.parameters
  throws := []

end MethodText

/-- The signs that a return type may hold besides word characters. -/
def typeSigns : Text := ['.', '[', ']', '<', '>', ',', '?', ' ', '\t']

/-- The parts of a header are what they are called, and only blanks stand between them. -/
structure MethodText.IsWritten (m : MethodText) : Prop where
  modifiers : RunOf methodModifiers m.modifiers
  returnType : isTypeText typeSigns m.returnType = true
  returnTypeEnd : ∀ c ∈ m.returnType.getLast?, isBlank c = false
  returnTypeWords : ∀ w ∈ words m.returnType, w ∉ methodModifiers
  beforeName : Blank m.beforeName ∧ m.beforeName ≠ []
  name : isIdentifier m.name = true
  typeParameters : ∀ p ∈ m.typeParameters, Blank p.1 ∧ p.2 ≠ [] ∧ ∀ c ∈ p.2, c ∉ barred
  beforeList : Blank m.beforeList
  parameters : isFlat m.parameters = true
  beforeWhere : Blank m.beforeWhere
  afterWhere : Blank m.afterWhere ∧ m.afterWhere ≠ []
  constraints : ∀ t ∈ m.constraints, t ≠ [] ∧ (∀ c ∈ t.head?, isBlank c = false) ∧
    ∀ c ∈ t, c ∉ ['{', ';', '=']
  beforeEnd : Blank m.beforeEnd
  ending : m.ending ∈ [['{'], ['=', '>'], [';']]

/-- Type parameters with the blanks in front of them. -/
def typeParametersPart : Pattern Slot :=
  optional (mark .typeParameters (seq blanks (angleGroup barred)))

/-- The constraints of a method with their key word. -/
def constraintsPart : Pattern Slot :=
  optional (all [blanks, literal "where".toList, someBlanks, lazyPlus (noneOf ['{', ';', '='])])

theorem keyWords_methodModifiers : KeyWords methodModifiers := ⟨by decide, by decide, by decide⟩

variable {m : MethodText} {here there : Cursor} {e e' : Ending Slot} {next : Next Slot}
  {b t rest : Text} {c : Char}

/-! ### Behind the parameter list -/

theorem prefers_memberEnd {w : Text} (hb : Blank b) (hw : w ∈ [['{'], ['=', '>'], [';']])
    (hr : here.rest = b ++ (w ++ rest)) : memberEnd.Prefers here (here.beyond (b ++ w) rest) := by
  have cases : w = ['{'] ∨ w = ['=', '>'] ∨ w = [';'] := by simpa using hw
  have gap : (blanks : Pattern Slot).Prefers here (here.beyond b (w ++ rest)) :=
      prefers_blanks hb hr fun d hd => by
    rcases cases with rfl | rfl | rfl <;> rw [← Option.mem_some_iff.mp hd] <;> decide
  have sign :
      (any [sign '{', literal "=>".toList, sign ';'] : Pattern Slot).Prefers
        (here.beyond b (w ++ rest))
      ((here.beyond b (w ++ rest)).beyond w rest) := by
    rcases cases with rfl | rfl | rfl
    · exact (prefers_sign rfl).any_cons
    · exact (prefers_literal rfl).any_cons.any_of_fails (fails_sign (by simp))
    · refine ((prefers_sign rfl).any_cons.any_of_fails (fails_literal ?_)).any_of_fails
        (fails_sign (by simp))
      simp
  rw [Cursor.beyond_beyond] at sign
  exact gap.seq sign

/-- Behind the parameter list the header comes to an end. -/
theorem exists_run_tail (h : m.IsWritten) (hr : here.rest = m.tail rest) :
    ∃ e, (all [constraintsPart, memberEnd]).run here stopHere = some e ∧ e.Tells fun _ => none := by
  have found : ((all [constraintsPart, memberEnd]).run here stopHere).isSome = true := by
    rw [MethodText.tail, MethodText.constraintsText] at hr
    rw [run_all_cons, constraintsPart, run_optional, Option.isSome_or, Bool.or_eq_true]
    cases hc : m.constraints with
    | none =>
      rw [hc, List.nil_append] at hr
      have ends : memberEnd.run here stopHere = _ :=
        prefers_memberEnd h.beforeEnd h.ending hr _ _ rfl
      exact .inr (by rw [all, ends, Option.isSome_some])
    | some clause =>
      obtain ⟨hne, hhead, hends⟩ := h.constraints clause hc
      obtain ⟨c, w, rfl⟩ := List.exists_cons_of_ne_nil hne
      let behind := m.beforeEnd ++ (m.ending ++ rest)
      have hr :
          here.rest = m.beforeWhere ++
            ("where".toList ++ (m.afterWhere ++ (c :: w ++ behind))) := by
        rw [hr, hc]
        simp only [behind, List.append_assoc]
      have gap : (blanks : Pattern Slot).Prefers here _ :=
          prefers_blanks h.beforeWhere hr fun d hd => by
        rw [← Option.mem_some_iff.mp hd]
        decide
      have word : (literal "where".toList : Pattern Slot).Prefers
          (here.beyond m.beforeWhere ("where".toList ++ (m.afterWhere ++ (c :: w ++ behind)))) _ :=
            prefers_literal rfl
      rw [Cursor.beyond_beyond] at word
      let place :=
        here.beyond (m.beforeWhere ++ "where".toList) (m.afterWhere ++ (c :: w ++ behind))
      have gap' :
          (someBlanks : Pattern Slot).Prefers place
          (place.beyond m.afterWhere (c :: w ++ behind)) :=
        prefers_someBlanks h.afterWhere.1 h.afterWhere.2 rfl hhead
      let last := (place.beyond m.afterWhere (c :: w ++ behind)).beyond (c :: w) behind
      have ends : memberEnd.run last stopHere = _ :=
        prefers_memberEnd h.beforeEnd h.ending rfl _ _ rfl
      have clause :
          ((all [lazyPlus (noneOf ['{', ';', '='])]).run
            (place.beyond m.afterWhere (c :: w ++ behind))
          fun there => memberEnd.run there stopHere).isSome = true :=
        isSome_run_lazyPlus_one (fun d hd => by simpa using hends d hd) rfl
          (by rw [ends, Option.isSome_some])
      obtain ⟨e, he⟩ := Option.isSome_iff_exists.mp clause
      have part := gap.run_all (word.run_all (gap'.run_all he))
      exact .inl (by rw [all, part, Option.isSome_some])
  obtain ⟨e, he⟩ := Option.isSome_iff_exists.mp found
  exact ⟨e, he, Ending.tells_of_marks he rfl⟩

/-! ### From the name on -/

/-- The parts of a header behind its type parameters. -/
def listPart : List (Pattern Slot) := [parameterList, constraintsPart, memberEnd]

theorem exists_run_list (h : m.IsWritten) (hr : here.rest = m.list rest) :
    ∃ e, (all listPart).run here stopHere = some e ∧
      e.Tells fun slot => if slot = .parameters then some m.parameters else none := by
  let later := here.beyond (m.beforeList ++ '(' :: (m.parameters ++ [')'])) (m.tail rest)
  have hlater : later.rest = m.tail rest := rfl
  obtain ⟨e, hrun, htells⟩ := exists_run_tail h hlater
  have parameters : (all listPart).run here stopHere = _ :=
    (run_all_cons ..).trans (run_parameterList h.beforeList (flat_of_isFlat h.parameters) hr hrun)
  exact ⟨_, parameters, htells.marked rfl⟩

theorem isSign_bracket : IsSign '<' := ⟨by decide, by decide⟩

/-- No parameter list begins in front of a closing bracket. -/
theorem run_list_eq_none {v y : Text} {ps : List (Pattern Slot)} (hv : '(' ∉ v)
    (hr : here.rest = v ++ '>' :: y) :
    (all (parameterList :: ps)).run here next = none := by
  refine run_eq_none fun there e e' hl => ?_
  obtain ⟨_, _, hl, -⟩ := leads_all_cons.mp hl
  obtain ⟨b, x, hb, hr'⟩ := leads_parameterList hl
  rw [hr] at hr'
  exact absurd hr'.symm (append_sign_ne (by decide) (fun hm => absurd (hb _ hm) (by decide)) hv)

/-- Type parameters end with the bracket in front of the parameter list. -/
theorem exists_run_generic {gap name inner : Text} (h : m.IsWritten) (hg : Blank gap ∧ gap ≠ [])
    (hn : isIdentifier name = true) (hb : Blank b) (hi : ∀ c ∈ inner, c ∉ barred) (hne : inner ≠ [])
    (hr : here.rest = gap ++ (name ++ (b ++ (bracketed inner ++ m.list rest)))) :
    ∃ e, (all (someBlanks :: named :: typeParametersPart :: listPart)).run here stopHere = some e ∧
      e.Tells fun slot => if slot = .name then some name else if slot = .typeParameters
        then some (b ++ bracketed inner)
        else if slot = .parameters then some m.parameters else none := by
  let behind := b ++ (bracketed inner ++ m.list rest)
  obtain ⟨blank, identifier⟩ := prefers_gap_name hg hn (head?_blank_append_sign hb (by decide) _) hr
  let place := (here.beyond gap (name ++ behind)).beyond name behind
  let later := place.beyond (b ++ bracketed inner) (m.list rest)
  have hlater : later.rest = m.list rest := rfl
  obtain ⟨e, hrun, htells⟩ := exists_run_list h hlater
  let marked : Next Slot :=
    fun there => ((all listPart).run there stopHere).map (.markEnd .typeParameters there)
  have gap' :
      (blanks : Pattern Slot).Prefers place (place.beyond b (bracketed inner ++ m.list rest)) :=
    prefers_blanks hb rfl fun d hd => by
      rw [← Option.mem_some_iff.mp hd]
      decide
  have group : (angleGroup barred).run (place.beyond b (bracketed inner ++ m.list rest)) marked =
      some (.markEnd .typeParameters later e) := by
    refine run_angleGroup hi hne rfl (fun u v huv => ?_) ?_
    · have noSign : '(' ∉ v := fun hm => hi '(' (by rw [← huv]; simp [hm]) (by decide)
      exact Option.map_eq_none_iff.mpr (run_list_eq_none noSign rfl)
    · rw [Cursor.beyond_beyond]
      exact congrArg (Option.map _) hrun
  have clause : (mark .typeParameters (seq blanks (angleGroup barred))).run place
      (fun there => (all listPart).run there stopHere) =
        some (e.marked .typeParameters place later) :=
    congrArg (Option.map _) (gap'.run_seq group)
  have part : (all (typeParametersPart :: listPart)).run place stopHere =
      some (e.marked .typeParameters place later) := by
    rw [run_all_cons, typeParametersPart, run_optional]
    exact congrArg (Option.or · _) clause
  exact ⟨_, blank.run_all (identifier.run_all_mark part),
    (htells.marked (by simp [place, behind])).marked rfl⟩

theorem leads_typeParameters
    (h : (mark .typeParameters (seq blanks (angleGroup barred))).Leads here e there e') :
    ∃ b inner, Blank b ∧ (∀ c ∈ inner, c ∉ barred) ∧
      here.rest = b ++ (bracketed inner ++ there.rest) := by
  cases h with
  | mark h =>
    cases h with
    | seq h h' =>
      obtain ⟨b, hb, hr, -⟩ := leads_blanks h
      obtain ⟨inner, hi, hr', -⟩ := leads_angleGroup h'
      exact ⟨b, inner, hb, hi, by rw [hr, hr']⟩

/-- Without type parameters the parameter list follows the name. -/
theorem exists_run_plain (h : m.IsWritten)
    (hr : here.rest = m.beforeName ++ (m.name ++ m.list rest)) :
    ∃ e, (all (someBlanks :: named :: typeParametersPart :: listPart)).run here stopHere = some e ∧
      e.Tells fun slot => if slot = .name then some m.name
        else if slot = .parameters then some m.parameters else none := by
  obtain ⟨blank, identifier⟩ :=
    prefers_gap_name h.beforeName h.name (head?_blank_append_sign h.beforeList (by decide) _) hr
  let place := (here.beyond m.beforeName (m.name ++ m.list rest)).beyond m.name (m.list rest)
  have hplace : place.rest = m.list rest := rfl
  obtain ⟨e, hrun, htells⟩ := exists_run_list h hplace
  have noClause :
      (mark .typeParameters (seq blanks (angleGroup barred)) : Pattern Slot).Fails place :=
    fails_of_not_leads fun there e e' hl => by
      obtain ⟨b, inner, hb, -, hr'⟩ := leads_typeParameters hl
      have := (blank_append_cons_inj h.beforeList hb (by decide) (by decide) hr').1
      exact absurd this (by decide)
  have part := (prefers_optional_of_fails noClause).run_all hrun
  exact ⟨_, blank.run_all (identifier.run_all_mark part), htells.marked rfl⟩

theorem exists_run_name (h : m.IsWritten) (hr : here.rest = m.nameAndList rest) :
    ∃ e, (all (someBlanks :: named :: typeParametersPart :: listPart)).run here stopHere = some e ∧
      e.Tells fun slot => if slot = .name then some m.name
        else if slot = .typeParameters then m.typeParameters.map fun p => p.1 ++ bracketed p.2
        else if slot = .parameters then some m.parameters else none := by
  rw [MethodText.nameAndList, MethodText.typeParametersText] at hr
  cases hp : m.typeParameters with
  | none =>
    rw [hp] at hr
    obtain ⟨e, hrun, htells⟩ := exists_run_plain h hr
    refine ⟨e, hrun, fun first slot => ?_⟩
    rw [htells]
    cases slot <;> rfl
  | some p =>
    obtain ⟨gap, inner⟩ := p
    obtain ⟨hg, hne, hi⟩ := h.typeParameters _ hp
    rw [hp] at hr
    exact exists_run_generic h h.beforeName h.name hg hi hne (hr.trans (by rw [List.append_assoc]))

/-! ### From the return type on -/

/-- A text that holds a word and an opening bracket, with blanks in front of the word. -/
def SpacedGeneric (t : Text) : Prop := ∃ u v y, t = u ++ (v ++ '<' :: y) ∧ IsGapAndName v

theorem not_spacedGeneric_of_solid (h : Solid t) : ¬SpacedGeneric t := by
  rintro ⟨u, v, y, rfl, gap, name, b, rfl, ⟨hg, hn⟩, -⟩
  obtain ⟨c, gap, rfl⟩ := List.exists_cons_of_ne_nil hn
  have solid := h c (by simp)
  rw [hg c List.mem_cons_self] at solid
  exact absurd solid (by simp)

/-- A reading from the name on finds a name and, with or without type parameters in between, a
parameter list. -/
theorem leads_name
    (h : (all (someBlanks :: named :: typeParametersPart :: listPart)).Leads here e there e') :
    ∃ u, IsGapAndName u ∧ ((∃ y, here.rest = u ++ '(' :: y) ∨
      ∃ inner b y, '(' ∉ inner ∧ Blank b ∧
        here.rest = u ++ (bracketed inner ++ (b ++ '(' :: y))) := by
  obtain ⟨_, _, hgap, h⟩ := leads_all_cons.mp h
  obtain ⟨_, _, hname, h⟩ := leads_all_cons.mp h
  obtain ⟨_, _, hclause, h⟩ := leads_all_cons.mp h
  obtain ⟨_, _, hlist, -⟩ := leads_all_cons.mp h
  obtain ⟨gap, hg, hn, hr, -⟩ := leads_someBlanks hgap
  obtain ⟨name, hi, hr', -⟩ := leads_named hname
  obtain ⟨b, y, hb, hl⟩ := leads_parameterList hlist
  cases hclause with
  | left hclause =>
    obtain ⟨b', inner, hb', hi', hc⟩ := leads_typeParameters hclause
    refine ⟨gap ++ (name ++ b'), ⟨gap, name, b', rfl, ⟨hg, hn⟩, hi, hb'⟩,
      .inr ⟨inner, b, y, ?_, hb, ?_⟩⟩
    · exact fun hm => hi' '(' hm (by decide)
    · simp [hr, hr', hl, hc]
  | right hclause =>
    cases hclause
    exact ⟨gap ++ (name ++ b), ⟨gap, name, b, rfl, ⟨hg, hn⟩, hi, hb⟩,
      .inl ⟨y, by simp [hr, hr', hl]⟩⟩

/-- A name is not a closing bracket, whatever blanks stand behind them. -/
theorem append_name_ne_bracket {u v : Text} (ht : IsGapAndName t) (hb : Blank b) :
    v ++ t ≠ u ++ '>' :: b := by
  obtain ⟨gap, name, b', rfl, -, hn, hb'⟩ := ht
  intro he
  obtain ⟨w, c, rfl⟩ : ∃ w c, name = w ++ [c] :=
    ⟨_, _, (List.dropLast_append_getLast (ne_nil_of_isIdentifier hn)).symm⟩
  have word : isWord c = true := isWord_of_isIdentifier hn c (by simp)
  have he' := congrArg List.reverse he
  simp only [List.reverse_append, List.reverse_cons, List.append_assoc, List.singleton_append]
    at he'
  obtain ⟨rfl, -⟩ :=
    blank_append_cons_inj hb'.reverse hb.reverse (isBlank_of_isWord word) (by decide) he'
  exact absurd word (by decide)

/-- Behind a part of the return type that is not all of it no header goes on, if there are no type
parameters or no generic type with blanks in front of it stands in the return type. -/
theorem run_name_eq_none {v : Text} (h : m.IsWritten)
    (hs : m.typeParameters = none ∨ ¬SpacedGeneric m.returnType)
    (hv : v <:+ m.returnType) (hn : v ≠ []) (hr : here.rest = v ++ m.nameAndList rest) :
    (all (someBlanks :: named :: typeParametersPart :: listPart)).run here next = none := by
  obtain ⟨front, hfront⟩ := hv
  have notBlank : ¬Blank v := not_blank_of_append h.returnTypeEnd hfront hn
  have noSign : '(' ∉ v := fun hm =>
    notMem_of_isTypeText h.returnType (by decide) (by decide)
      (hfront ▸ List.mem_append_right front hm)
  refine fails_of_not_leads (fun there e e' hl => ?_) next
  obtain ⟨u, hu, hcase⟩ := leads_name hl
  rw [hr, MethodText.nameAndList, MethodText.typeParametersText, MethodText.list] at hcase
  cases hp : m.typeParameters with
  | none =>
    rw [hp, List.nil_append] at hcase
    have ht : IsGapAndName (m.beforeName ++ (m.name ++ m.beforeList)) :=
      ⟨_, _, _, rfl, h.beforeName, h.name, h.beforeList⟩
    have noSign' : '(' ∉ v ++ (m.beforeName ++ (m.name ++ m.beforeList)) := by
      simp [noSign, ht.notMem isSign_parenthesis]
    rcases hcase with ⟨y, hr'⟩ | ⟨inner, b, y, hi, hb, hr'⟩
    · exact notBlank (ht.blank_of_eq hu isSign_parenthesis noSign (by simpa using hr'))
    · have noSign'' : '(' ∉ u ++ '<' :: inner ++ '>' :: b := by
        simp [hu.notMem isSign_parenthesis, hi, isSign_parenthesis.notMem_blank hb]
      have same := append_sign_inj noSign' noSign'' (by simpa [bracketed] using hr')
      exact append_name_ne_bracket ht hb same.1
  | some p =>
    obtain ⟨gap, inner⟩ := p
    rw [hp] at hcase
    have ht : IsGapAndName (m.beforeName ++ (m.name ++ gap)) :=
      ⟨_, _, _, rfl, h.beforeName, h.name, (h.typeParameters _ hp).1⟩
    rcases hcase with ⟨y, hr'⟩ | ⟨inner', b, y, -, -, hr'⟩
    · have noSign' : '(' ∉ v ++ (m.beforeName ++ (m.name ++ gap)) := by
        simp [noSign, ht.notMem isSign_parenthesis]
      exact append_sign_ne (by decide) noSign' (hu.notMem isSign_bracket)
        (by simpa [bracketed] using hr')
    · by_cases hm : '<' ∈ v
      · obtain ⟨v', y', rfl, hv'⟩ := List.eq_append_cons_of_mem hm
        have same := append_sign_inj hv' (hu.notMem isSign_bracket) (by simpa [bracketed] using hr')
        exact hs.resolve_left (by simp [hp]) ⟨front, v', y', hfront.symm, same.1 ▸ hu⟩
      · exact notBlank (ht.blank_of_eq hu isSign_bracket hm (by simpa [bracketed] using hr'))

theorem free_of_mem_barred : ∀ c ∈ barred, isBlank c = false ∧ isWord c = false ∧
    c ∉ typeSigns ∧ c ≠ '<' := by
  decide

/-- What stands in front of such a word in a return type is not empty. -/
theorem SpacedGeneric.exists_front (hs : SpacedGeneric t) (ht : isTypeText typeSigns t = true) :
    ∃ u v y, t = u ++ (v ++ '<' :: y) ∧ u ≠ [] ∧ IsGapAndName v := by
  obtain ⟨u, v, y, rfl, hv⟩ := hs
  refine ⟨u, v, y, rfl, ?_, hv⟩
  rintro rfl
  obtain ⟨gap, name, b, rfl, ⟨hg, hn⟩, -⟩ := hv
  obtain ⟨c, gap, rfl⟩ := List.exists_cons_of_ne_nil hn
  obtain ⟨d, hd, hstart⟩ := head?_of_isTypeText ht []
  obtain rfl : c = d := by simpa using hd
  exact absurd (isBlank_of_isNameStart hstart) (by simp [hg c List.mem_cons_self])

/-- From a generic type with blanks in front of it, the header goes on as if that type were the
name. -/
theorem isSome_run_of_spacedGeneric (h : m.IsWritten) (hp : m.typeParameters ≠ none) {u v y : Text}
    (hv : IsGapAndName v) (ht : m.returnType = u ++ (v ++ '<' :: y))
    (hr : here.rest = v ++ '<' :: y ++ m.nameAndList rest) :
    ((all (someBlanks :: named :: typeParametersPart :: listPart)).run here stopHere).isSome =
      true := by
  obtain ⟨⟨gap, inner⟩, hp⟩ := Option.ne_none_iff_exists'.mp hp
  obtain ⟨hg, hne, hi⟩ := h.typeParameters _ hp
  obtain ⟨gap', name, b, rfl, hg', hname, hb⟩ := hv
  have inside : ∀ c ∈ y ++ (m.beforeName ++ (m.name ++ (gap ++ '<' :: inner))), c ∉ barred := by
    intro c hc hm
    obtain ⟨noBlank, noWord, noSign, noBracket⟩ := free_of_mem_barred c hm
    simp only [List.mem_append, List.mem_cons] at hc
    rcases hc with hc | hc | hc | hc | hc | hc
    · rcases mem_of_isTypeText h.returnType c (by rw [ht]; simp [hc]) with hw | hs
      · exact absurd hw (by simp [noWord])
      · exact noSign hs
    · exact absurd (h.beforeName.1 c hc) (by simp [noBlank])
    · exact absurd (isWord_of_isIdentifier h.name c hc) (by simp [noWord])
    · exact absurd (hg c hc) (by simp [noBlank])
    · exact noBracket hc
    · exact hi c hc hm
  have whole : here.rest = gap' ++ (name ++ (b ++
      (bracketed (y ++ (m.beforeName ++ (m.name ++ (gap ++ '<' :: inner)))) ++ m.list rest))) := by
    rw [hr, MethodText.nameAndList, MethodText.typeParametersText, hp]
    simp [bracketed]
  obtain ⟨e, he, -⟩ := exists_run_generic h hg' hname hb inside (by simp) whole
  rw [he, Option.isSome_some]

/-! ### The whole header -/

theorem MethodText.text_append (m : MethodText) (trailing : Text) :
    m.text ++ trailing = spaced m.modifiers ++ (m.returnType ++ m.nameAndList trailing) := by
  simp [text, nameAndList, list, tail]

/-- The first header that is found begins with the modifiers, and goes on as the return type does.
-/
theorem head?_methodHeaders_of_run (h : m.IsWritten) {trailing behind : Text}
    (hb : behind = m.returnType ++ m.nameAndList trailing)
    (hrun : (all
    (returnTypePart typeSigns :: someBlanks :: named :: typeParametersPart :: listPart)).run
      ((Cursor.ofText (m.text ++ trailing)).beyond (spaced m.modifiers) behind) stopHere = some e) :
    (methodHeaders (m.text ++ trailing)).head? =
      some (MemberHeader.ofMatch ⟨Cursor.ofText (m.text ++ trailing),
      e.marked .modifiers (Cursor.ofText (m.text ++ trailing))
        ((Cursor.ofText (m.text ++ trailing)).beyond (spaced m.modifiers) behind)⟩) := by
  subst hb
  let place := Cursor.ofText (m.text ++ trailing)
  let later := place.beyond (spaced m.modifiers) (m.returnType ++ m.nameAndList trailing)
  have hplace : place.rest = spaced m.modifiers ++ (m.returnType ++ m.nameAndList trailing) :=
    m.text_append trailing
  obtain ⟨c, hc, hs⟩ := head?_of_isTypeText h.returnType (m.nameAndList trailing)
  have edge : later.atWordEdge = true :=
    atWordEdge_of_word (before_beyond_of_getLast h.modifiers.getLast?_spaced rfl) (by
      rw [Cursor.rest_beyond, hc]
      exact isWord_of_isNameStart hs)
  have stop : (modifierRound methodModifiers).Fails later :=
    fails_modifierRound keyWords_methodModifiers h.returnTypeWords
      (not_blank_of_isTypeText h.returnType)
      h.beforeName.1 h.beforeName.2 rfl
  have modifiers : (star (modifierRound methodModifiers)).Prefers place later :=
    prefers_modifiers keyWords_methodModifiers h.modifiers hplace rfl
      (isBlank_head?_of_isTypeText h.returnType _) stop
  exact head?_memberHeaders (modifiers.run_all_mark ((prefers_wordEdge edge).run_all hrun))

/-- Without type parameters, or without such a generic type, the header is read as it is written. -/
theorem head?_methodHeaders_of_plain (h : m.IsWritten)
    (hs : m.typeParameters = none ∨ ¬SpacedGeneric m.returnType)
    (trailing : Text) : (methodHeaders (m.text ++ trailing)).head? = some (m.header trailing) := by
  let place := Cursor.ofText (m.text ++ trailing)
  let later := place.beyond (spaced m.modifiers) (m.returnType ++ m.nameAndList trailing)
  have hplace : place.rest = spaced m.modifiers ++ (m.returnType ++ m.nameAndList trailing) :=
    m.text_append trailing
  have hlater : later.rest = m.returnType ++ m.nameAndList trailing := rfl
  have hname : (later.beyond m.returnType (m.nameAndList trailing)).rest = m.nameAndList trailing :=
    rfl
  obtain ⟨e, hrun, htells⟩ := exists_run_name h hname
  have type :
      (all (returnTypePart typeSigns :: someBlanks :: named :: typeParametersPart :: listPart)).run
        later
      stopHere = _ :=
    (run_all_cons ..).trans
      (run_returnType h.returnType hlater
        (fun u v huv _ hv => run_name_eq_none h hs ⟨u, huv⟩ hv rfl) hrun)
  have typeParameters : (m.typeParameters.map fun p => p.1 ++ bracketed p.2).map collapse =
      m.typeParameters.map fun p => collapse (bracketed p.2) := by
    rw [Option.map_map]
    exact Option.map_congr fun p hp => collapse_blank_append (h.typeParameters p hp).1 _
  rw [head?_methodHeaders_of_run h rfl type,
    ofMatch_of_tells ((htells.marked hlater).marked hplace), MethodText.header]
  simp [typeParameters, words_spaced (h.modifiers.isRun keyWords_methodModifiers)]
  rfl

/-- With type parameters behind such a generic type, less than the return type is read as the return
type. -/
theorem exists_head?_of_spacedGeneric (h : m.IsWritten) (hp : m.typeParameters ≠ none)
    (hs : SpacedGeneric m.returnType)
    (trailing : Text) : ∃ u v header, u ++ v = m.returnType ∧ v ≠ [] ∧
      (methodHeaders (m.text ++ trailing)).head? = some header ∧
        header.returnType = some (collapse u) := by
  let place := Cursor.ofText (m.text ++ trailing)
  let later := place.beyond (spaced m.modifiers) (m.returnType ++ m.nameAndList trailing)
  let next : Next Slot :=
    fun there => (all (someBlanks :: named :: typeParametersPart :: listPart)).run there stopHere
  have hplace : place.rest = spaced m.modifiers ++ (m.returnType ++ m.nameAndList trailing) :=
    m.text_append trailing
  have found : (next (later.beyond m.returnType (m.nameAndList trailing))).isSome = true := by
    have hname :
      (later.beyond m.returnType (m.nameAndList trailing)).rest = m.nameAndList trailing := rfl
    obtain ⟨e, hrun, -⟩ := exists_run_name h hname
    exact Option.isSome_of_eq_some hrun
  obtain ⟨u, v, e, huv, -, -, hrun, hshort⟩ := exists_run_returnType h.returnType rfl found
  have hlater : later.rest = u ++ (v ++ m.nameAndList trailing) := by
    rw [← List.append_assoc, huv]; rfl
  have type :
      (all (returnTypePart typeSigns :: someBlanks :: named :: typeParametersPart :: listPart)).run
        later
      stopHere = _ := (run_all_cons ..).trans hrun
  have tells : e.Tells fun slot => (Match.mk place e).text? slot := fun _ _ => rfl
  refine ⟨u, v, _, huv, ?_, head?_methodHeaders_of_run h rfl type, ?_⟩
  · -- The front of the generic type would have been read as the return type before the whole.
    rintro rfl
    obtain ⟨u', v', y, ht, hu', hv'⟩ := hs.exists_front h.returnType
    have early : u' ++ (v' ++ '<' :: y) = u := by rw [← ht, ← huv, List.append_nil]
    have none : next (later.beyond u' (v' ++ '<' :: y ++ m.nameAndList trailing)) = none :=
      hshort u' (v' ++ '<' :: y) early hu' (by simp)
    have some := isSome_run_of_spacedGeneric h hp hv' ht
      (rfl : (later.beyond u' (v' ++ '<' :: y ++ m.nameAndList trailing)).rest = _)
    exact Option.isSome_iff_ne_none.mp some none
  · rw [ofMatch_of_tells ((tells.marked hlater).marked hplace)]
    rfl

/-- Whatever stands behind a method header, the first one that is found is that header with its
parts, if and only if it has no type parameters or its return type holds no generic type with blanks
in front of it. -/
theorem head?_methodHeaders_iff (m : MethodText) (h : m.IsWritten) (trailing : Text) :
    (methodHeaders (m.text ++ trailing)).head? = some (m.header trailing) ↔
      m.typeParameters = none ∨ ¬SpacedGeneric m.returnType := by
  refine ⟨fun hhead => ?_, fun hs => head?_methodHeaders_of_plain h hs trailing⟩
  by_contra hn
  rw [not_or, not_not] at hn
  obtain ⟨u, v, header, huv, hv, hfound, htype⟩ :=
    exists_head?_of_spacedGeneric h hn.1 hn.2 trailing
  obtain rfl := Option.some.inj (hfound.symm.trans hhead)
  have same : collapse m.returnType = collapse u := Option.some.inj htype
  rw [collapse_eq_iff, ← huv] at same
  exact words_append_ne (not_blank_of_append h.returnTypeEnd huv hv) u same

def convertHeader : MethodText where
  modifiers :=
    [("public".toList, " ".toList), ("static".toList, "\t ".toList), ("async".toList, " ".toList)]
  returnType := "Task<Dictionary<string,List<T[]>>>".toList
  beforeName := "\n    ".toList
  name := "Convert".toList
  typeParameters := some (" ".toList, "T, List<U>".toList)
  beforeList := []
  parameters := "IReadOnlyList<T> source, int? limit = null".toList
  beforeWhere := " ".toList
  afterWhere := " ".toList
  constraints := some "T : class, IShape<U>, new()".toList
  beforeEnd := " ".toList
  ending := ['=', '>']

theorem isWritten_convertHeader : convertHeader.IsWritten := by
  constructor <;> decide

theorem head?_methodHeaders_convertHeader :
    convertHeader.text =
        ("public static\t async Task<Dictionary<string,List<T[]>>>\n    Convert <T, List<U>>" ++
        "(IReadOnlyList<T> source, int? limit = null) where T : class, IShape<U>, new() =>").toList ∧
      convertHeader.IsWritten ∧
      ((methodHeaders (convertHeader.text ++ " null; void M() \x7b".toList)).head? =
          some (convertHeader.header " null; void M() \x7b".toList) ↔
        convertHeader.typeParameters = none ∨ ¬SpacedGeneric convertHeader.returnType) ∧
      ¬SpacedGeneric convertHeader.returnType :=
  ⟨by decide +kernel, isWritten_convertHeader,
    head?_methodHeaders_iff convertHeader isWritten_convertHeader _,
    not_spacedGeneric_of_solid (by decide)⟩

def lookupHeader : MethodText where
  modifiers := [("public".toList, " ".toList)]
  returnType := "Dictionary<string, List<int>>".toList
  beforeName := " ".toList
  name := "Get".toList
  typeParameters := some ([], "T".toList)
  beforeList := []
  parameters := "int x".toList
  beforeWhere := []
  afterWhere := " ".toList
  constraints := none
  beforeEnd := " ".toList
  ending := ['{']

/-- A header with type parameters whose return type is cut in front of its second type argument. -/
theorem head?_methodHeaders_lookupHeader :
    (lookupHeader.IsWritten ∧ lookupHeader.name ∉ statementWords ∧
        ∀ w ∈ words lookupHeader.returnType, w ∉ statementWords) ∧
      lookupHeader.text = "public Dictionary<string, List<int>> Get<T>(int x) \x7b".toList ∧
      (methodHeaders (lookupHeader.text ++ " \x7d".toList)).head? ≠
        some (lookupHeader.header " \x7d".toList) ∧
      (methodHeaders (lookupHeader.text ++ " \x7d".toList)).head? = some {
        place := Cursor.ofText (lookupHeader.text ++ " \x7d".toList)
        name := "List".toList
        modifiers := ["public".toList]
        typeParameters := some "<int>> Get<T>".toList
        returnType := some "Dictionary<string,".toList
        parameters := "int x".toList
        throws := [] } := by
  refine ⟨⟨?_, by decide, by decide⟩, by decide +kernel, by decide +kernel, by decide +kernel⟩
  constructor <;> decide

end SourceSurvey.Source.CSharp
