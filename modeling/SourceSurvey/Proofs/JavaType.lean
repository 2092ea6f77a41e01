import SourceSurvey.Proofs.TypeName
import SourceSurvey.Source.Java

/-! Type headers of Java as they are written: modifiers, the key word of a kind, a name with its
parts, clauses of supertypes and the opening brace, with blanks between. -/

namespace SourceSurvey.Source.Java

open Text Pattern

/-- The key words of the clauses that may stand behind a name, in order. -/
def clauseWords : List Text := ["extends".toList, "implements".toList, "permits".toList]

/-- The parts of a type header as they stand in a text, with the blanks between them. -/
structure TypeText where
  /-- Each with the blanks behind it. -/
  modifiers : List (Text × Text)
  kind : TypeKind
  name : NameText
  parents : ClauseText
  interfaces : ClauseText
  permitted : ClauseText
  beforeEnd : Text

namespace TypeText

/-- The clauses and the opening brace. -/
def clausesText (m : TypeText) (rest : Text) : Text :=
  m.parents.text "extends".toList ++ (m.interfaces.text "implements".toList ++
    (m.permitted.text "permits".toList ++ (m.beforeEnd ++ '{' :: rest)))

def text (m : TypeText) : Text :=
  spaced m.modifiers ++ (m.kind.keyword ++ (m.name.text ++ m.clausesText []))

/-- The parts of a header are what they are called, and only blanks stand between them. -/
structure IsWritten (m : TypeText) : Prop where
  modifiers : RunOf typeModifiers m.modifiers
  kind : m.kind ≠ .structType
  name : m.name.IsWritten ['{'] clauseWords
  parents : m.parents.IsWritten ["implements".toList, "permits".toList]
  interfaces : m.interfaces.IsWritten ["permits".toList]
  permitted : m.permitted.IsWritten []
  gaps : ∀ c ∈ [m.parents, m.interfaces, m.permitted], c.before ≠ [] ∧ c.after ≠ []
  beforeEnd : Blank m.beforeEnd

/-- The header that is made of these parts, at the start of a text that goes on behind it. -/
def header (m : TypeText) (trailing : Text) : TypeHeader where
  place := Cursor.ofText (m.text ++ trailing)
  kind := m.kind
  name := m.name.name
  modifiers := m.modifiers.map (·.1)
  typeParameters := m.name.typeParameters.map fun p => collapse (bracketed p.2)
  baseTypes := []
  parents := m.parents.supertypes
  interfaces := m.interfaces.supertypes
  permitted := m.permitted.supertypes
  components := m.name.components.map (·.2)

end TypeText

/-- The brace that opens the body, with the blanks in front of it. -/
def bodyPart : List (Pattern Slot) := [blanks, sign '{']

def permittedPart : List (Pattern Slot) := clauseAfter "permits".toList .permitted :: bodyPart

def interfacesPart : List (Pattern Slot) :=
  clauseAfter "implements".toList .interfaces :: permittedPart

def parentsPart : List (Pattern Slot) := clauseAfter "extends".toList .parents :: interfacesPart

theorem keyWords_typeModifiers : KeyWords typeModifiers := ⟨by decide, by decide, by decide⟩

theorem isIdentifier_of_mem_clauseWords : ∀ w ∈ clauseWords, isIdentifier w = true := by decide

variable {here : Cursor} {e : Ending Slot} {b t rest : Text} {m : TypeText}
  {ps : List (Pattern Slot)}

/-! ### The clauses -/

theorem marked_clauseWords {keys : List Text} (h : keys ⊆ clauseWords) : Marked ['{'] keys where
  noWord := by decide
  noBlank := by decide
  words := fun w hw => isIdentifier_of_mem_clauseWords w (h hw)

theorem opensWith_bodyPart : OpensWith (all bodyPart) ['{'] [] :=
  fun _ _ _ _ h => opens_of_leads_sign List.mem_cons_self h

theorem opensWith_permittedPart : OpensWith (all permittedPart) ['{'] ["permits".toList] :=
  opensWith_bodyPart.key_cons

theorem opensWith_interfacesPart :
    OpensWith (all interfacesPart) ['{'] ["implements".toList, "permits".toList] :=
  opensWith_permittedPart.key_cons

theorem opensWith_parentsPart : OpensWith (all parentsPart) ['{'] clauseWords :=
  opensWith_interfacesPart.key_cons

theorem prefers_bodyPart (hb : Blank b) (hr : here.rest = b ++ '{' :: rest) :
    (all bodyPart).Prefers here (here.beyond (b ++ ['{']) rest) := by
  have gap : (blanks : Pattern Slot).Prefers here (here.beyond b ('{' :: rest)) :=
      prefers_blanks hb hr fun c hc => by
    rw [← Option.mem_some_iff.mp hc]
    decide
  have brace : (all [sign '{'] : Pattern Slot).Prefers (here.beyond b ('{' :: rest)) _ :=
    prefers_sign rfl
  rw [Cursor.beyond_beyond] at brace
  exact gap.all_cons brace

theorem exists_run_clauses (h : m.IsWritten) (hr : here.rest = m.clausesText rest) :
    ∃ e, (all parentsPart).run here stopHere = some e ∧
      e.Tells fun slot => if slot = .parents then m.parents.part? else if slot = .interfaces
        then m.interfaces.part?
        else if slot = .permitted then m.permitted.part? else none := by
  have ends : ['{'] ⊆ clauseEnds := by decide
  let atInterfaces :=
    here.beyond (m.parents.text "extends".toList) (m.interfaces.text "implements".toList ++
    (m.permitted.text "permits".toList ++ (m.beforeEnd ++ '{' :: rest)))
  let atPermitted := atInterfaces.beyond (m.interfaces.text "implements".toList)
    (m.permitted.text "permits".toList ++ (m.beforeEnd ++ '{' :: rest))
  let atBody := atPermitted.beyond (m.permitted.text "permits".toList) (m.beforeEnd ++ '{' :: rest)
  have hinterfaces : atInterfaces.rest = m.interfaces.text "implements".toList ++
    (m.permitted.text "permits".toList ++ (m.beforeEnd ++ '{' :: rest)) := rfl
  have hpermitted :
    atPermitted.rest = m.permitted.text "permits".toList ++ (m.beforeEnd ++ '{' :: rest) := rfl
  have body : (all bodyPart).run atBody stopHere = _ := prefers_bodyPart h.beforeEnd rfl _ _ rfl
  obtain ⟨e₁, permitted, ht₁⟩ := exists_run_clauseAfter .permitted h.permitted (h.gaps _ (by simp))
    (marked_clauseWords (by simp)) ends (by decide) (by simp) opensWith_bodyPart hpermitted body
    Ending.tells_plain rfl
  obtain ⟨e₂, interfaces, ht₂⟩ :=
    exists_run_clauseAfter .interfaces h.interfaces (h.gaps _ (by simp))
    (marked_clauseWords (by decide)) ends (by decide)
      (by decide) opensWith_permittedPart hinterfaces
    permitted ht₁ (if_neg (by decide))
  obtain ⟨e₃, parents, ht₃⟩ := exists_run_clauseAfter .parents h.parents (h.gaps _ (by simp))
    (marked_clauseWords (by decide)) ends (by decide) (by decide) opensWith_interfacesPart
      hr interfaces ht₂
    ((if_neg (by decide)).trans (if_neg (by decide)))
  exact ⟨e₃, parents, ht₃⟩

/-! ### The kind -/

def kindWords : List Text := ["interface".toList, "enum".toList, "record".toList, "class".toList]

theorem keyWords_kindWords : KeyWords kindWords := ⟨by decide, by decide, by decide⟩

/-- The key word of a kind is read in front of blanks. -/
theorem prefers_kind {kind : TypeKind} (hk : kind ≠ .structType) (hb : Blank b ∧ b ≠ [])
    (hr : here.rest = kind.keyword ++ (b ++ rest)) (hw : here.before.head?.any isWord = false) :
    (alt (literal "@interface".toList) (seq wordEdge (oneOf kindWords)) : Pattern Slot).Prefers here
      (here.beyond kind.keyword (b ++ rest)) := by
  by_cases ha : kind = .annotationType
  · subst ha
    exact (prefers_literal hr).left
  · have word : kind.keyword ∈ kindWords := by
      cases kind <;> first | exact absurd rfl hk | exact absurd rfl ha | decide
    have letter : here.rest.head?.any isWord = true := by
      obtain ⟨c, w, hc⟩ := List.exists_cons_of_ne_nil (keyWords_kindWords.ne_nil word)
      have starts := keyWords_kindWords.starts _ word
      rw [hc] at starts
      rw [hr, hc]
      exact starts
    have noAt : (literal "@interface".toList : Pattern Slot).Fails here :=
        fails_literal fun ⟨y, hy⟩ => by
      rw [← hy] at letter
      exact absurd letter (by simp [isWord])
    have edge : (wordEdge : Pattern Slot).Prefers here here :=
      prefers_wordEdge (atWordEdge_of_word hw letter)
    exact (edge.seq (prefers_oneOf word hr fun v hv hp =>
      keyWords_kindWords.eq_of_prefix hv word hb.1 hb.2
      (hr ▸ hp))).right noAt

/-! ### The whole header -/

theorem typeHeader?_of_tells {parts : Slot → Option Text} {kind : TypeKind} (h : e.Tells parts)
    (first : Cursor) (hk : parts .kind = some kind.keyword) : typeHeader? ⟨first, e⟩ = some {
      place := first
      kind := kind
      name := (parts .name).getD []
      modifiers := words ((parts .modifiers).getD [])
      typeParameters := (parts .typeParameters).map collapse
      baseTypes := []
      parents := splitClause (parts .parents)
      interfaces := splitClause (parts .interfaces)
      permitted := splitClause (parts .permitted)
      components := parts .components } := by
  simp [typeHeader?, Match.text, h first, hk, TypeKind.ofKeyword?_keyword]

/-- Whatever stands behind a type header, the first one that is found is that header with its parts.
-/
theorem head?_typeHeaders_text (h : m.IsWritten) (trailing : Text) :
    (typeHeaders (m.text ++ trailing)).head? = some (m.header trailing) := by
  let place := Cursor.ofText (m.text ++ trailing)
  let behindName := m.clausesText trailing
  let behindKind := m.name.text ++ behindName
  let atKind := place.beyond (spaced m.modifiers) (m.kind.keyword ++ behindKind)
  let atName := atKind.beyond m.kind.keyword behindKind
  have hplace : place.rest = spaced m.modifiers ++ (m.kind.keyword ++ behindKind) := by
    simp [place, behindKind, behindName, TypeText.text, TypeText.clausesText, Cursor.ofText]
  have edge : atKind.before.head?.any isWord = false :=
    before_beyond_of_getLast h.modifiers.getLast?_spaced rfl
  have behind : behindKind = m.name.beforeName ++ (m.name.name ++ (m.name.typeParametersText ++
      (m.name.componentsText ++ behindName))) := by simp [behindKind, NameText.text]
  have hkind : atKind.rest = m.kind.keyword ++ behindKind := rfl
  have hname : atName.rest = m.name.text ++ behindName := rfl
  have hlater : (atName.beyond m.name.text behindName).rest = behindName := rfl
  obtain ⟨e₁, clauses, ht₁⟩ := exists_run_clauses h hlater
  obtain ⟨e₂, name, ht₂⟩ :=
    exists_run_typeName h.name (marked_clauseWords (List.Subset.refl _)) (by decide)
    opensWith_parentsPart hname clauses ht₁ ⟨rfl, rfl⟩
  have kind := prefers_kind h.kind h.name.beforeName (behind ▸ hkind) edge
  rw [← behind] at kind
  have noModifier : (modifierRound typeModifiers).Fails atKind :=
    fails_modifierRound_keyword keyWords_typeModifiers (by cases m.kind <;> decide)
      h.name.beforeName (congrArg _ behind)
  have modifiers : (star (modifierRound typeModifiers)).Prefers place atKind :=
    prefers_modifiers keyWords_typeModifiers h.modifiers hplace rfl
      (head?_keyword_append m.kind _) noModifier
  have run : typePattern.run place stopHere = _ := modifiers.run_all_mark (kind.run_all_mark name)
  have typeParameters : (m.name.typeParameters.map fun p => p.1 ++ bracketed p.2).map collapse =
      m.name.typeParameters.map fun p => collapse (bracketed p.2) := by
    rw [Option.map_map]
    exact Option.map_congr fun p hp => collapse_blank_append (h.name.typeParameters p hp).1 _
  rw [typeHeaders,
    head?_filterMap_allMatches run (typeHeader?_of_tells ((ht₂.marked rfl).marked hplace) _ rfl)]
  simp [TypeText.header, typeParameters, words_spaced (h.modifiers.isRun keyWords_typeModifiers),
    splitClause_part? h.parents, splitClause_part? h.interfaces, splitClause_part? h.permitted]

end SourceSurvey.Source.Java
