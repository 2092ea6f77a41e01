import SourceSurvey.Proofs.Clause
import SourceSurvey.Proofs.Method
import SourceSurvey.Source.Java
import Mathlib.Data.List.Infix

/-! Method headers of Java as they are written. A header is modifiers, type parameters, a return
type, a name, a parameter list and thrown types, with blanks between. Whatever stands behind it, the
first method header that is found in the text is that one, with its parts as they were written. -/

namespace SourceSurvey.Source.Java

open Text Pattern

/-- The parts of a method header as they stand in a text, with the blanks between them. -/
structure MethodText where
  /-- Each with the blanks behind it. -/
  modifiers : List (Text × Text)
  /-- The text between the angle brackets, and the blanks behind them. -/
  typeParameters : Option (Text × Text)
  returnType : Text
  beforeName : Text
  name : Text
  beforeList : Text
  parameters : Text
  beforeThrows : Text
  afterThrows : Text
  thrown : List Text
  beforeEnd : Text
  ending : Char

namespace MethodText

def typeParametersText (m : MethodText) : Text :=
  match m.typeParameters with
  | none => []
  | some (inner, gap) => bracketed inner ++ gap

/-- The thrown types between commas behind their key word; nothing at all where no type is thrown.
-/
def thrownText (m : MethodText) : Text :=
  if m.thrown = [] then []
  else m.beforeThrows ++ ("throws".toList ++ (m.afterThrows ++ [','].intercalate m.thrown))

def text (m : MethodText) : Text :=
  spaced m.modifiers ++
    (m.typeParametersText ++ (m.returnType ++ (m.beforeName ++ (m.name ++ (m.beforeList ++
    '(' :: (m.parameters ++ ')' :: (m.thrownText ++ (m.beforeEnd ++ [m.ending]))))))))

end MethodText

/-- The signs that a return type may hold besides word characters. -/
def typeSigns : Text := ['.', '[', ']', '<', '>', '?', ',', '&', ' ', '\t']

/-- Whether a text begins, blanks aside, with a letter or underscore. -/
def opensName (t : Text) : Bool := (t.dropWhile isBlank).head?.any isNameStart

/-- The parts of a header are what they are called, and only blanks stand between them. -/
structure MethodText.IsWritten (m : MethodText) : Prop where
  modifiers : RunOf methodModifiers m.modifiers
  typeParameters : ∀ p ∈ m.typeParameters, (p.1 ≠ [] ∧ ∀ c ∈ p.1, c ∉ barred) ∧ Blank p.2
  /-- No closing bracket inside the type parameters has a name behind it. -/
  closing : ∀ p ∈ m.typeParameters, ∀ t ∈ p.1.tails, t.head? = some '>' → opensName t.tail = false
  returnType : isTypeText typeSigns m.returnType = true
  returnTypeEnd : ∀ c ∈ m.returnType.getLast?, isBlank c = false
  returnTypeWords : ∀ w ∈ words m.returnType, w ∉ methodModifiers
  beforeName : Blank m.beforeName ∧ m.beforeName ≠ []
  name : isIdentifier m.name = true
  beforeList : Blank m.beforeList
  parameters : isFlat m.parameters = true
  beforeThrows : Blank m.beforeThrows
  afterThrows : Blank m.afterThrows ∧ m.afterThrows ≠ []
  thrown : ∀ t ∈ m.thrown, (isEntry t = true ∧ ¬Blank t) ∧ ∀ c ∈ t, c ∉ [';', '{']
  beforeEnd : Blank m.beforeEnd
  ending : m.ending ∈ ['{', ';']

/-- What may end the header of a method, with the blanks in front of it. -/
def endPart : List (Pattern Slot) := [blanks, any [sign '{', sign ';']]

theorem keyWords_methodModifiers : KeyWords methodModifiers := ⟨by decide, by decide, by decide⟩

variable {here there : Cursor} {e e' : Ending Slot} {next : Next Slot} {b t rest : Text} {c : Char}

/-! ### Thrown types -/

theorem prefers_endPart (hb : Blank b) (hc : c ∈ ['{', ';']) (hr : here.rest = b ++ c :: rest) :
    (all endPart).Prefers here (here.beyond (b ++ [c]) rest) := by
  have hs : ∀ d ∈ (c :: rest).head?, isBlank d = false := fun d hd => by
    rw [← Option.mem_some_iff.mp hd]
    rcases List.mem_pair.mp hc with rfl | rfl <;> decide
  have gap : (blanks : Pattern Slot).Prefers here (here.beyond b (c :: rest)) :=
    prefers_blanks hb hr hs
  have sign : (all [any [sign '{', sign ';']] : Pattern Slot).Prefers (here.beyond b (c :: rest))
      ((here.beyond b (c :: rest)).beyond [c] rest) := by
    rcases List.mem_pair.mp hc with rfl | rfl
    · exact (prefers_sign rfl).any_cons
    · exact (prefers_sign rfl).any_of_fails (fails_sign (by simp))
  rw [Cursor.beyond_beyond] at sign
  exact gap.all_cons sign

theorem leads_endPart (h : (all endPart).Leads here e there e') :
    ∃ b c y, Blank b ∧ c ∈ ['{', ';'] ∧ here.rest = b ++ c :: y := by
  obtain ⟨_, _, hgap, h⟩ := leads_all_cons.mp h
  obtain ⟨b, hb, hr, rfl⟩ := leads_blanks hgap
  obtain ⟨p, hp, h⟩ := leads_any.mp h
  rcases List.mem_pair.mp hp with rfl | rfl
  · exact ⟨b, '{', _, hb, by simp, by rw [hr, (leads_sign h).1]⟩
  · exact ⟨b, ';', _, hb, by simp, by rw [hr, (leads_sign h).1]⟩

theorem isBlank_of_mem_ends (hc : c ∈ ['{', ';']) : isBlank c = false := by
  rcases List.mem_pair.mp hc with rfl | rfl <;> decide

/-- No header ends in front of a character that is neither blank nor an end. -/
theorem run_endPart_eq_none (hb : Blank b) (hc : isBlank c = false) (hn : c ∉ ['{', ';'])
    (hr : here.rest = b ++ c :: rest) : (all endPart).run here next = none := by
  refine run_eq_none fun there e e' h => ?_
  obtain ⟨b', c', y, hb', hc', hr'⟩ := leads_endPart h
  rw [hr] at hr'
  obtain ⟨rfl, -⟩ := blank_append_cons_inj hb hb' hc (isBlank_of_mem_ends hc') hr'
  exact absurd hc' hn

/-- Without thrown types the header ends behind its parameter list. -/
theorem run_endPart_of_nil (hb : Blank b) (hc : c ∈ ['{', ';']) (hr : here.rest = b ++ c :: rest) :
    (all (throwsClause :: endPart)).run here stopHere =
      some (.plain (here.beyond (b ++ [c]) rest)) := by
  have noClause : (all [blanks, literal "throws".toList, someBlanks,
      mark .throws (lazyPlus (noneOf [';', '{']))] : Pattern Slot).Fails here := by
    refine fails_of_not_leads fun there e e' h => ?_
    obtain ⟨_, _, hgap, h⟩ := leads_all_cons.mp h
    obtain ⟨_, _, hword, -⟩ := leads_all_cons.mp h
    obtain ⟨b', hb', hr', rfl⟩ := leads_blanks hgap
    rw [(leads_literal hword).1, hr] at hr'
    obtain ⟨rfl, -⟩ := blank_append_cons_inj hb hb' (isBlank_of_mem_ends hc) (by decide) hr'
    exact absurd hc (by decide)
  exact (prefers_optional_of_fails noClause).run_all (prefers_endPart hb hc hr _ _ rfl)

/-- A clause of thrown types is read without the blanks at its ends. -/
theorem run_throws {before after clause : Text} (hbefore : Blank before) (hafter : Blank after)
    (hn : after ≠ [])
    (hclause : ¬Blank clause) (hends : ∀ d ∈ clause, d ∉ [';', '{']) (hb : Blank b)
    (hc : c ∈ ['{', ';'])
    (hr : here.rest = before ++ ("throws".toList ++ (after ++ (clause ++ (b ++ c :: rest))))) :
    ∃ e, (all (throwsClause :: endPart)).run here stopHere = some e ∧
      e.Tells fun slot => if slot = .throws then some (trim clause) else none := by
  obtain ⟨a, z, hsplit, ha, hz, hhead, hlast⟩ := exists_trim clause
  obtain ⟨x, xs, hx⟩ := List.exists_cons_of_ne_nil fun h => hclause (trim_eq_nil_iff.mp h)
  rw [hx] at hsplit hhead hlast ⊢
  have hmem : ∀ d ∈ x :: xs, d ∉ [';', '{'] := fun d hd =>
    hends d (hsplit ▸ List.mem_append_right a (List.mem_append_left z hd))
  obtain ⟨behind, hbehind⟩ : ∃ behind, behind = x :: xs ++ ((z ++ b) ++ c :: rest) := ⟨_, rfl⟩
  have hr : here.rest = before ++ ("throws".toList ++ ((after ++ a) ++ behind)) := by
    rw [hr, hsplit, hbehind]
    simp only [List.append_assoc]
  have gap :
      (blanks : Pattern Slot).Prefers here
      (here.beyond before ("throws".toList ++ ((after ++ a) ++ behind))) :=
    prefers_blanks hbefore hr fun d hd => by
      rw [← Option.mem_some_iff.mp hd]
      decide
  have word : (literal "throws".toList : Pattern Slot).Prefers
      (here.beyond before ("throws".toList ++ ((after ++ a) ++ behind))) _ := prefers_literal rfl
  have gap' : (someBlanks : Pattern Slot).Prefers
      (here.beyond (before ++ "throws".toList) ((after ++ a) ++ behind))
      ((here.beyond (before ++ "throws".toList) ((after ++ a) ++ behind)).beyond
        (after ++ a) behind) :=
    prefers_someBlanks (hafter.append ha) (by simp [hn]) rfl fun d hd =>
      hhead d (by simpa [hbehind] using hd)
  rw [Cursor.beyond_beyond] at word gap'
  -- The shortest clause from which the header ends is the whole one: its last character is no
  -- blank.
  let place := here.beyond (before ++ "throws".toList ++ (after ++ a)) behind
  let later := place.beyond (x :: xs) ((z ++ b) ++ c :: rest)
  have hplace : place.rest = x :: xs ++ ((z ++ b) ++ c :: rest) := hbehind
  have types :
      (mark .throws (lazyPlus (noneOf [';', '{']))).run place
        (fun there => (all endPart).run there stopHere) =
      some (.marked .throws place later (.plain (later.beyond (z ++ b ++ [c]) rest))) := by
    refine run_mark_lazyPlus_one (fun d hd => by simpa using hmem d hd) hplace
      (fun u v huv hv => ?_)
      (prefers_endPart (hz.append hb) hc rfl _ _ rfl)
    have hv' : ¬Blank v := not_blank_of_append hlast (by rw [← huv, ← List.cons_append]) hv
    obtain ⟨b', d, v', rfl, hb', hd⟩ := exists_eq_blank_append hv'
    have hd' := hmem d (List.mem_cons_of_mem x (by rw [← huv]; simp))
    have hr' : (place.beyond (x :: u) (b' ++ d :: v' ++ ((z ++ b) ++ c :: rest))).rest =
        b' ++ d :: (v' ++ ((z ++ b) ++ c :: rest)) := by
      rw [Cursor.rest_beyond, List.append_assoc, List.cons_append]
    exact run_endPart_eq_none hb' hd (by simpa [and_comm] using hd') hr'
  have clause : (all [blanks, literal "throws".toList, someBlanks,
      mark .throws (lazyPlus (noneOf [';', '{']))]).run here
        (fun there => (all endPart).run there stopHere) = _ :=
    gap.run_all (word.run_all (gap'.run_all types))
  refine ⟨.marked .throws place later (.plain (later.beyond (z ++ b ++ [c]) rest)), ?_,
    Ending.tells_plain.marked hplace⟩
  rw [run_all_cons, throwsClause, run_optional, clause, Option.some_or]

variable {m : MethodText}

theorem exists_run_thrown (h : m.IsWritten)
    (hr : here.rest = m.thrownText ++ (m.beforeEnd ++ m.ending :: rest)) :
    ∃ e thrown, (all (throwsClause :: endPart)).run here stopHere = some e ∧
      (e.Tells fun slot => if slot = .throws then thrown else none) ∧
        splitClause thrown = m.thrown.map collapse := by
  rw [MethodText.thrownText] at hr
  by_cases hn : m.thrown = []
  · rw [if_pos hn, List.nil_append] at hr
    refine ⟨_, none, run_endPart_of_nil h.beforeEnd h.ending hr, fun first slot =>
      ?_, by rw [hn]; rfl⟩
    rw [Ending.tells_plain]
    exact (ite_self none).symm
  · rw [if_neg hn] at hr
    have notBlank : ¬Blank ([','].intercalate m.thrown) :=
      not_blank_intercalate hn fun t ht => (h.thrown t ht).1.2
    have noEnd : ∀ c ∈ [','].intercalate m.thrown, c ∉ [';', '{'] := by
      intro c hc
      rcases mem_intercalate hc with hc | ⟨t, ht, hc⟩
      · rw [List.mem_singleton.mp hc]
        decide
      · exact (h.thrown t ht).2 c hc
    obtain ⟨e, hrun, htells⟩ :=
      run_throws h.beforeThrows h.afterThrows.1 h.afterThrows.2 notBlank noEnd h.beforeEnd
      h.ending (by simpa only [List.append_assoc] using hr)
    refine ⟨e, _, hrun, htells, ?_⟩
    rw [splitClause_trim, splitClause_intercalate fun t ht => (h.thrown t ht).1]

/-! ### From the name on -/

/-- What stands behind the return type. -/
def MethodText.nameAndList (m : MethodText) (rest : Text) : Text :=
  m.beforeName ++ (m.name ++ (m.beforeList ++
    '(' :: (m.parameters ++ ')' :: (m.thrownText ++ (m.beforeEnd ++ m.ending :: rest)))))

theorem exists_run_name (h : m.IsWritten) (hr : here.rest = m.nameAndList rest) :
    ∃ e thrown, (all (someBlanks :: named :: parameterList :: throwsClause :: endPart)).run here
      stopHere = some e ∧
      (e.Tells fun slot => if slot = .name then some m.name else if slot = .parameters
        then some m.parameters
        else if slot = .throws then thrown else none) ∧
            splitClause thrown = m.thrown.map collapse := by
  let list :=
    m.beforeList ++
      '(' :: (m.parameters ++ ')' :: (m.thrownText ++ (m.beforeEnd ++ m.ending :: rest)))
  obtain ⟨gap, name⟩ :=
    prefers_gap_name h.beforeName h.name (head?_blank_append_sign h.beforeList (by decide) _) hr
  let place := (here.beyond m.beforeName (m.name ++ list)).beyond m.name list
  let later := place.beyond (m.beforeList ++ '(' :: (m.parameters ++ [')']))
    (m.thrownText ++ (m.beforeEnd ++ m.ending :: rest))
  have hlater : later.rest = m.thrownText ++ (m.beforeEnd ++ m.ending :: rest) := rfl
  obtain ⟨e, thrown, hrun, htells, hthrown⟩ := exists_run_thrown h hlater
  have hplace : place.rest = list := rfl
  have parameters : (all (parameterList :: throwsClause :: endPart)).run place stopHere = _ :=
    (run_all_cons ..).trans
      (run_parameterList h.beforeList (flat_of_isFlat h.parameters) hplace hrun)
  exact ⟨_, thrown, gap.run_all (name.run_all_mark parameters),
    (htells.marked rfl).marked rfl, hthrown⟩

/-! ### From the return type on -/

theorem MethodText.nameAndList_eq (h : m.IsWritten) (rest : Text) :
    ∃ t y, IsGapAndName t ∧ m.nameAndList rest = t ++ '(' :: y :=
  ⟨m.beforeName ++ (m.name ++ m.beforeList), _,
    ⟨_, _, _, rfl, h.beforeName, h.name, h.beforeList⟩, by
    rw [nameAndList, List.append_assoc, List.append_assoc]⟩

/-- Behind a part of the return type that is not all of it there is no name with a parameter list.
-/
theorem run_name_eq_none {ps : List (Pattern Slot)} {v : Text} (h : m.IsWritten)
    (hv : v <:+ m.returnType) (hn : v ≠ []) (hr : here.rest = v ++ m.nameAndList rest) :
    (all (someBlanks :: named :: parameterList :: ps)).run here next = none := by
  refine run_eq_none fun there e e' hl => ?_
  obtain ⟨u, y, hu, hr'⟩ := leads_name_list hl
  obtain ⟨t, x, ht, hm⟩ := m.nameAndList_eq h rest
  rw [hr, hm] at hr'
  have noSign : '(' ∉ v :=
    fun hc => notMem_of_isTypeText h.returnType (by decide) (by decide) (hv.subset hc)
  obtain ⟨w, hw⟩ := hv
  exact absurd (ht.blank_of_eq hu isSign_parenthesis noSign hr')
    (not_blank_of_append h.returnTypeEnd hw hn)

theorem exists_run_type (h : m.IsWritten) (hr : here.rest = m.returnType ++ m.nameAndList rest)
    (hb : here.before.head?.any isWord = false) :
    ∃ e thrown,
        (all (wordEdge :: returnTypePart typeSigns :: someBlanks :: named :: parameterList ::
        throwsClause ::
        endPart)).run here stopHere = some e ∧
      (e.Tells fun slot => if slot = .returnType then some m.returnType else
        if slot = .name then some m.name
        else if slot = .parameters then some m.parameters else if slot = .throws
          then thrown else none) ∧
      splitClause thrown = m.thrown.map collapse := by
  have edge : here.atWordEdge = true := by
    obtain ⟨c, hc, hs⟩ := head?_of_isTypeText h.returnType (m.nameAndList rest)
    refine atWordEdge_of_word hb ?_
    rw [hr, hc]
    exact isWord_of_isNameStart hs
  have hplace : (here.beyond m.returnType (m.nameAndList rest)).rest = m.nameAndList rest := rfl
  obtain ⟨e, thrown, hrun, htells, hthrown⟩ := exists_run_name h hplace
  have type :
      (all (returnTypePart typeSigns :: someBlanks :: named :: parameterList ::
        throwsClause :: endPart)).run
      here stopHere = _ :=
    (run_all_cons ..).trans
      (run_returnType h.returnType hr (fun u v huv _ hv => run_name_eq_none h ⟨u, huv⟩ hv rfl) hrun)
  exact ⟨_, thrown, (prefers_wordEdge edge).run_all type, htells.marked hr, hthrown⟩

/-! ### From the type parameters on -/

theorem opensName_append_bracket (t rest : Text) : opensName (t ++ '>' :: rest) = opensName t := by
  have other : opensName ('>' :: rest) = false := rfl
  rw [opensName, List.dropWhile_append]
  split
  · next he =>
    rw [← opensName, other, opensName, List.isEmpty_iff.mp he]
    rfl
  · next he =>
    rw [List.head?_append_of_ne_nil _ (by simpa using he), opensName]

/-- Where a return type can be read behind blanks, a name begins. -/
theorem opensName_of_leads {ps : List (Pattern Slot)} (hb : Blank b)
    (h : (all (wordEdge :: returnTypePart typeSigns :: ps)).Leads here e there e') :
    opensName (b ++ here.rest) = true := by
  obtain ⟨_, _, hedge, h⟩ := leads_all_cons.mp h
  obtain ⟨_, _, htype, -⟩ := leads_all_cons.mp h
  cases hedge
  obtain ⟨type, ht, hr, -⟩ := leads_returnType htype
  obtain ⟨c, hc, hs⟩ := head?_of_isTypeText ht _
  rw [← hr] at hc
  obtain ⟨y, hy⟩ := List.head?_eq_some_iff.mp hc
  have stops : (c :: y).dropWhile isBlank = c :: y :=
    List.dropWhile_cons_of_neg (by simp [isBlank_of_isNameStart hs])
  rw [opensName, dropWhile_blank_append hb, hy, stops, List.head?_cons, Option.any_some, hs]

theorem run_typeParameters {inner gap : Text} {ps : List (Pattern Slot)}
    (hi : ∀ c ∈ inner, c ∉ barred) (hne : inner ≠ []) (hg : Blank gap)
    (hc : ∀ t ∈ inner.tails, t.head? = some '>' → opensName t.tail = false)
    (hr : here.rest = bracketed inner ++ gap ++ rest) (hs : ∀ c ∈ rest.head?, isBlank c = false)
    (he : (all (wordEdge :: returnTypePart typeSigns :: ps)).run
    (here.beyond (bracketed inner ++ gap) rest) stopHere =
      some e) :
    (all (memberTypeParameters :: wordEdge :: returnTypePart typeSigns :: ps)).run here stopHere =
      some (e.marked .typeParameters here (here.beyond (bracketed inner ++ gap) rest)) := by
  let marked : Next Slot := fun there =>
    ((all (wordEdge :: returnTypePart typeSigns :: ps)).run there stopHere).map
      (.markEnd .typeParameters there)
  have early : ∀ u v, u ++ '>' :: v = inner →
      blanks.run (here.beyond (bracketed u) (v ++ '>' :: (gap ++ rest))) marked = none := by
    intro u v huv
    refine run_eq_none fun there e e' hl => ?_
    obtain ⟨b, hb, hr', -⟩ := leads_blanks hl
    have closed : opensName v = false := hc ('>' :: v) ((List.mem_tails _ _).mpr ⟨u, huv⟩) rfl
    refine Option.map_eq_none_iff.mpr (run_eq_none fun _ _ _ hl' => ?_)
    have opened := opensName_of_leads hb hl'
    rw [← hr', Cursor.rest_beyond, opensName_append_bracket, closed] at opened
    exact absurd opened (by simp)
  have last : blanks.run (here.beyond (bracketed inner) (gap ++ rest)) marked =
      some (.markEnd .typeParameters (here.beyond (bracketed inner ++ gap) rest) e) := by
    refine prefers_blanks hg rfl hs _ _ ?_
    rw [Cursor.beyond_beyond]
    exact congrArg (Option.map _) he
  have group : (angleGroup barred).run here (fun there => blanks.run there marked) = _ :=
    run_angleGroup hi hne (by rw [hr, List.append_assoc]) early last
  have clause : (mark .typeParameters (seq (angleGroup barred) blanks)).run here
      (fun there => (all (wordEdge :: returnTypePart typeSigns :: ps)).run there stopHere) =
      some (e.marked .typeParameters here (here.beyond (bracketed inner ++ gap) rest)) :=
        congrArg (Option.map _) group
  rw [run_all_cons, memberTypeParameters, run_optional]
  exact congrArg (Option.or · _) clause

/-- Without type parameters a return type stands where they would begin. -/
theorem fails_typeParameters {x y : Text} (hx : isTypeText typeSigns x = true)
    (hr : here.rest = x ++ y) :
    (mark .typeParameters (seq (angleGroup barred) blanks) : Pattern Slot).Fails here := by
  refine fails_of_not_leads fun there e e' h => ?_
  cases h with
  | mark h =>
    cases h with
    | seq h _ =>
      obtain ⟨inner, -, hr', -⟩ := leads_angleGroup h
      obtain ⟨c, hc, hs⟩ := head?_of_isTypeText hx y
      rw [← hr, hr', bracketed, List.cons_append, List.head?_cons, Option.some.injEq] at hc
      rw [← hc] at hs
      exact absurd hs (by decide)

theorem MethodText.getLast?_typeParametersText (h : m.IsWritten) :
    ∀ c ∈ m.typeParametersText.getLast?, isWord c = false := by
  rw [typeParametersText]
  cases hp : m.typeParameters with
  | none => exact fun c hc => absurd hc (by simp)
  | some p =>
    obtain ⟨inner, gap⟩ := p
    intro c hc
    by_cases hn : gap = []
    · simp only [hn, List.append_nil, getLast?_bracketed] at hc
      rw [← Option.mem_some_iff.mp hc]
      decide
    · simp only [List.getLast?_append_of_ne_nil _ hn] at hc
      exact isWord_of_isBlank ((h.typeParameters _ hp).2 c (List.mem_of_getLast? hc))

theorem exists_run_typeParameters (h : m.IsWritten)
    (hr : here.rest = m.typeParametersText ++ (m.returnType ++ m.nameAndList rest))
    (hb : here.before.head?.any isWord = false) :
    ∃ e thrown,
        (all (memberTypeParameters :: wordEdge :: returnTypePart typeSigns :: someBlanks :: named ::
        parameterList :: throwsClause :: endPart)).run here stopHere = some e ∧
      (e.Tells fun slot => if slot = .typeParameters then m.typeParameters.map fun p =>
        bracketed p.1 ++ p.2
        else if slot = .returnType then some m.returnType else if slot = .name then some m.name
        else if slot = .parameters then some m.parameters else if slot = .throws
          then thrown else none) ∧
      splitClause thrown = m.thrown.map collapse := by
  let place := here.beyond m.typeParametersText (m.returnType ++ m.nameAndList rest)
  have edge : place.before.head?.any isWord = false :=
    before_beyond_of_getLast (m.getLast?_typeParametersText h) hb
  have hplace : place.rest = m.returnType ++ m.nameAndList rest := rfl
  obtain ⟨e, thrown, hrun, htells, hthrown⟩ := exists_run_type h hplace edge
  simp only [place, MethodText.typeParametersText] at hr hrun
  cases hp : m.typeParameters with
  | none =>
    rw [hp] at hr hrun
    simp only [List.nil_append] at hr hrun
    rw [← hr, Cursor.beyond_nil] at hrun
    refine ⟨e, thrown,
      (prefers_optional_of_fails (fails_typeParameters h.returnType hr)).run_all hrun, ?_, hthrown⟩
    intro first slot
    rw [htells]
    cases slot <;> rfl
  | some p =>
    obtain ⟨inner, gap⟩ := p
    rw [hp] at hr hrun
    obtain ⟨⟨hne, hi⟩, hg⟩ := h.typeParameters _ hp
    have type := isBlank_head?_of_isTypeText h.returnType (m.nameAndList rest)
    exact ⟨_, thrown, run_typeParameters hi hne hg (h.closing _ hp) hr type hrun,
      htells.marked hr, hthrown⟩

/-! ### The whole header -/

theorem MethodText.text_append (m : MethodText) (trailing : Text) : m.text ++ trailing =
    spaced m.modifiers ++ (m.typeParametersText ++ (m.returnType ++ m.nameAndList trailing)) := by
  simp only [text, nameAndList, List.append_assoc, List.cons_append, List.nil_append]

/-- The modifiers end where the type parameters or the return type begin. -/
theorem fails_modifierRound_text (h : m.IsWritten)
    (hr : here.rest = m.typeParametersText ++ (m.returnType ++ m.nameAndList rest)) :
    (modifierRound methodModifiers).Fails here := by
  rw [MethodText.typeParametersText] at hr
  cases hp : m.typeParameters with
  | none =>
    rw [hp] at hr
    exact fails_modifierRound keyWords_methodModifiers h.returnTypeWords
      (not_blank_of_isTypeText h.returnType)
      h.beforeName.1 h.beforeName.2 hr
  | some p =>
    rw [hp] at hr
    refine fails_of_not_leads fun there e e' hl => ?_
    obtain ⟨w, hw, b, -, -, hr', -⟩ := leads_modifierRound hl
    obtain ⟨c, w, rfl⟩ := List.exists_cons_of_ne_nil (keyWords_methodModifiers.ne_nil hw)
    have starts := keyWords_methodModifiers.starts _ hw
    rw [hr] at hr'
    rw [← (List.cons.inj hr').1, List.head?_cons, Option.any_some] at starts
    exact absurd starts (by decide)

theorem head?_fromTypeParameters (h : m.IsWritten) (rest : Text) :
    ∀ c ∈ (m.typeParametersText ++ (m.returnType ++ rest)).head?, isBlank c = false := by
  rw [MethodText.typeParametersText]
  cases m.typeParameters with
  | none => exact isBlank_head?_of_isTypeText h.returnType rest
  | some p =>
    intro c hc
    rw [← Option.mem_some_iff.mp hc]
    decide

/-- A header is read at the start of its text, with its parts as they were written. -/
theorem exists_run_text (h : m.IsWritten) (trailing : Text) :
    ∃ e, methodPattern.run (Cursor.ofText (m.text ++ trailing)) stopHere = some e ∧
      MemberHeader.ofMatch ⟨Cursor.ofText (m.text ++ trailing), e⟩ = {
        place := Cursor.ofText (m.text ++ trailing)
        name := m.name
        modifiers := m.modifiers.map (·.1)
        typeParameters := m.typeParameters.map fun p => collapse (bracketed p.1)
        returnType := some (collapse m.returnType)
        parameters := m.parameters
        throws := m.thrown.map collapse } := by
  let place := Cursor.ofText (m.text ++ trailing)
  let behind := m.typeParametersText ++ (m.returnType ++ m.nameAndList trailing)
  let later := place.beyond (spaced m.modifiers) behind
  have hplace : place.rest = spaced m.modifiers ++ behind := m.text_append trailing
  have hlater : later.rest = behind := rfl
  have edge : later.before.head?.any isWord = false :=
    before_beyond_of_getLast h.modifiers.getLast?_spaced rfl
  obtain ⟨e, thrown, hrun, htells, hthrown⟩ := exists_run_typeParameters h hlater edge
  have modifiers : (star (modifierRound methodModifiers)).Prefers place later :=
    prefers_modifiers keyWords_methodModifiers h.modifiers hplace rfl (head?_fromTypeParameters h _)
      (fails_modifierRound_text h hlater)
  have typeParameters : (m.typeParameters.map fun p => bracketed p.1 ++ p.2).map collapse =
      m.typeParameters.map fun p => collapse (bracketed p.1) := by
    rw [Option.map_map]
    exact Option.map_congr fun p hp => collapse_append_blank (h.typeParameters p hp).2 _
  refine ⟨_, modifiers.run_all_mark hrun, (ofMatch_of_tells (htells.marked hplace) _).trans ?_⟩
  simp [typeParameters, hthrown, words_spaced (h.modifiers.isRun keyWords_methodModifiers)]

/-- Whatever stands behind a method header, the first one that is found is that header with its
parts. -/
theorem head?_methodHeaders_text (m : MethodText) (h : m.IsWritten) (trailing : Text) :
    (methodHeaders (m.text ++ trailing)).head? = some {
      place := Cursor.ofText (m.text ++ trailing)
      name := m.name
      modifiers := m.modifiers.map (·.1)
      typeParameters := m.typeParameters.map fun p => collapse (bracketed p.1)
      returnType := some (collapse m.returnType)
      parameters := m.parameters
      throws := m.thrown.map collapse } := by
  obtain ⟨e, hrun, header⟩ := exists_run_text h trailing
  rw [methodHeaders, head?_memberHeaders hrun, header]

def mergeHeader : MethodText where
  modifiers := [("public".toList, "  ".toList), ("static".toList, " ".toList)]
  typeParameters := some ("K extends Map<K, List<V>>, V".toList, [])
  returnType := "Map<K,  List<? super V>>[]".toList
  beforeName := "\n\t".toList
  name := "merge".toList
  beforeList := " ".toList
  parameters := "@Size(min = 1) K[] keys, V... values".toList
  beforeThrows := []
  afterThrows := " ".toList
  thrown := ["IOException".toList, " Failure<K,  V>".toList]
  beforeEnd := " ".toList
  ending := '{'

theorem isWritten_mergeHeader : mergeHeader.IsWritten := by
  constructor <;> decide

theorem head?_methodHeaders_mergeHeader :
    mergeHeader.text =
        ("public  static <K extends Map<K, List<V>>, V>Map<K,  List<? super V>>[]\n\tmerge " ++
        "(@Size(min = 1) K[] keys, V... values)throws IOException, Failure<K,  V> \x7b").toList ∧
      mergeHeader.IsWritten ∧
      (methodHeaders (mergeHeader.text ++ " return null; \x7d int size() \x7b ".toList)).head? =
        some {
        place := Cursor.ofText (mergeHeader.text ++ " return null; \x7d int size() \x7b ".toList)
        name := "merge".toList
        modifiers := ["public".toList, "static".toList]
        typeParameters := some "<K extends Map<K, List<V>>, V>".toList
        returnType := some "Map<K, List<? super V>>[]".toList
        parameters := "@Size(min = 1) K[] keys, V... values".toList
        throws := ["IOException".toList, "Failure<K, V>".toList] } :=
  ⟨by decide +kernel, isWritten_mergeHeader,
    (head?_methodHeaders_text mergeHeader isWritten_mergeHeader _).trans (by decide +kernel)⟩

end SourceSurvey.Source.Java
