import SourceSurvey.Proofs.TypeName
import SourceSurvey.Source.CSharp

/-! Type headers of C# as they are written: modifiers, the key word of a kind, a name with its
parts, base types behind a colon, constraints and what ends the header, with blanks between. A
record may have a second key word, which a name behind a single one is not mistaken for. Constraints
are passed over, so nothing is asked of how they are read. -/

namespace SourceSurvey.Source.CSharp

open Text Pattern

/-- The key words that may stand behind `record`. -/
def recordSorts : List Text := ["class".toList, "struct".toList]

/-- Constraints with the blanks around their key word. -/
structure ConstraintsText where
  before : Text
  after : Text
  constraints : Text

/-- The parts of a type header as they stand in a text, with the blanks between them. -/
structure TypeText where
  /-- Each with the blanks behind it. -/
  modifiers : List (Text × Text)
  kind : TypeKind
  /-- The second key word of a record, behind the blanks in front of it. -/
  sort : Option (Text × Text)
  name : NameText
  bases : ClauseText
  constraints : Option ConstraintsText
  beforeEnd : Text
  ending : Char

namespace ConstraintsText

def text (c : ConstraintsText) : Text := c.before ++ ("where".toList ++ (c.after ++ c.constraints))

structure IsWritten (c : ConstraintsText) : Prop where
  before : Blank c.before ∧ c.before ≠ []
  after : Blank c.after ∧ c.after ≠ []
  constraints : c.constraints ≠ [] ∧ ∀ d ∈ c.constraints, d ∉ clauseEnds

end ConstraintsText

namespace TypeText

def kindText (m : TypeText) : Text :=
  match m.sort with
  | none => m.kind.keyword
  | some (gap, word) => m.kind.keyword ++ (gap ++ word)

def constraintsText (m : TypeText) : Text :=
  match m.constraints with
  | none => []
  | some c => c.text

/-- What stands behind the base types. -/
def endText (m : TypeText) (rest : Text) : Text :=
  m.constraintsText ++ (m.beforeEnd ++ m.ending :: rest)

def text (m : TypeText) : Text :=
  spaced m.modifiers ++ (m.kindText ++ (m.name.text ++ (m.bases.text [':'] ++ m.endText [])))

/-- The parts of a header are what they are called, only blanks stand between them, and without a
body the type has components. -/
structure IsWritten (m : TypeText) : Prop where
  modifiers : RunOf typeModifiers m.modifiers
  kind : m.kind ≠ .annotationType
  sort : ∀ p ∈ m.sort, m.kind = .recordType ∧ (Blank p.1 ∧ p.1 ≠ []) ∧ p.2 ∈ recordSorts
  name : m.name.IsWritten [':', '{', ';'] ["where".toList]
  noSort : m.name.name ∉ recordSorts
  bases : m.bases.IsWritten ["where".toList]
  constraints : ∀ c ∈ m.constraints, c.IsWritten
  beforeEnd : Blank m.beforeEnd
  ending : m.ending ∈ clauseEnds
  body : m.ending = ';' → m.name.components ≠ none

/-- The header that is made of these parts, at the start of a text that goes on behind it. -/
def header (m : TypeText) (trailing : Text) : TypeHeader where
  place := Cursor.ofText (m.text ++ trailing)
  kind := m.kind
  name := m.name.name
  modifiers := m.modifiers.map (·.1)
  typeParameters := m.name.typeParameters.map fun p => collapse (bracketed p.2)
  baseTypes := m.bases.supertypes
  parents := []
  interfaces := []
  permitted := []
  components := m.name.components.map (·.2)

end TypeText

/-- What ends a header, with the blanks in front of it. -/
def endPart : List (Pattern Slot) := [blanks, mark .ending (any [sign '{', sign ';'])]

def typeConstraintsPart : List (Pattern Slot) :=
  optional (all [someBlanks, literal "where".toList, someBlanks, lazyPlus (noneOf clauseEnds)]) ::
    endPart

def basesPart : List (Pattern Slot) :=
  optional (all [blanks, sign ':', blanks, mark .bases (lazyPlus (noneOf clauseEnds))]) ::
    typeConstraintsPart

theorem keyWords_typeModifiers : KeyWords typeModifiers := ⟨by decide, by decide, by decide⟩

variable {here there : Cursor} {e e' : Ending Slot} {b t w rest : Text} {c : Char} {m : TypeText}
  {ps : List (Pattern Slot)} {parts : Slot → Option Text}

/-! ### Constraints and the end -/

theorem marked_bases : Marked [':', '{', ';'] ["where".toList] := ⟨by decide, by decide, by decide⟩

theorem marked_constraints : Marked ['{', ';'] ["where".toList] := ⟨by decide, by decide, by decide⟩

theorem isBlank_of_mem_clauseEnds (hc : c ∈ clauseEnds) : isBlank c = false := by
  rcases List.mem_pair.mp hc with rfl | rfl <;> decide

theorem leads_endPart (h : (all endPart).Leads here e there e') :
    ∃ b c mid, Blank b ∧ c ∈ clauseEnds ∧ here.rest = b ++ c :: there.rest ∧
      mid.rest = [c] ++ there.rest ∧
      e = e'.marked .ending mid (mid.beyond [c] there.rest) := by
  obtain ⟨mid, _, hgap, h⟩ := leads_all_cons.mp h
  obtain ⟨b, hb, hr, rfl⟩ := leads_blanks hgap
  cases h with
  | @mark _ _ _ m _ _ h =>
    have ends : (oneOf [['{'], [';']]).Leads mid m there (.markEnd .ending there e') := h
    obtain ⟨w, hw, hr', rfl⟩ := leads_oneOf ends
    obtain ⟨c, hc, rfl⟩ : ∃ c ∈ clauseEnds, w = [c] := by
      rcases List.mem_pair.mp hw with rfl | rfl
      · exact ⟨'{', by decide, rfl⟩
      · exact ⟨';', by decide, rfl⟩
    refine ⟨b, c, mid, hb, hc, by rw [hr, hr']; rfl, hr', ?_⟩
    rw [← h.eq_beyond hr']
    rfl

theorem opensWith_endPart : OpensWith (all endPart) ['{', ';'] [] := by
  intro here e there e' h
  obtain ⟨b, c, -, hb, hc, hr, -⟩ := leads_endPart h
  exact hr ▸ opens_sign hb hc _

theorem opensWith_typeConstraintsPart :
    OpensWith (all typeConstraintsPart) ['{', ';'] ["where".toList] :=
  opensWith_endPart.key_cons

theorem opensWith_basesPart : OpensWith (all basesPart) [':', '{', ';'] ["where".toList] :=
  opensWith_typeConstraintsPart.sign_cons

/-- However constraints are read, the header ends with the first sign that may end one. -/
theorem leads_typeConstraintsPart (h : (all typeConstraintsPart).Leads here e there e') :
    ∃ t c mid, (∀ d ∈ t, d ∉ clauseEnds) ∧ c ∈ clauseEnds ∧ here.rest = t ++ c :: there.rest ∧
      mid.rest = [c] ++ there.rest ∧ e = e'.marked .ending mid (mid.beyond [c] there.rest) := by
  have blank : ∀ {b : Text}, Blank b → ∀ d ∈ b, d ∉ clauseEnds := fun hb d hd hc => by
    have := isBlank_of_mem_clauseEnds hc
    rw [hb d hd] at this
    exact absurd this (by simp)
  rcases leads_optional_cons h with ⟨_, _, hw, h⟩ | h
  · obtain ⟨_, _, hgap, hw⟩ := leads_all_cons.mp hw
    obtain ⟨_, _, hword, hw⟩ := leads_all_cons.mp hw
    obtain ⟨_, _, hgap', hw⟩ := leads_all_cons.mp hw
    obtain ⟨g, hg, -, hr, rfl⟩ := leads_someBlanks hgap
    obtain ⟨hr', rfl⟩ := leads_literal hword
    obtain ⟨g', hg', -, hr'', rfl⟩ := leads_someBlanks hgap'
    obtain ⟨t, -, ht, hr₃, rfl⟩ := leads_lazyPlus_one hw
    obtain ⟨b, c, mid, hb, hc, hr₄, hm, he⟩ := leads_endPart h
    refine ⟨g ++ ("where".toList ++ (g' ++ (t ++ b))), c, mid, fun d hd => ?_, hc, ?_, hm, he⟩
    · simp only [List.mem_append] at hd
      rcases hd with hd | hd | hd | hd | hd
      · exact blank hg d hd
      · exact (by decide : ∀ d ∈ "where".toList, d ∉ clauseEnds) d hd
      · exact blank hg' d hd
      · simpa using ht d hd
      · exact blank hb d hd
    · simp [hr, hr', hr'', hr₃, hr₄]
  · obtain ⟨b, c, mid, hb, hc, hr, hm, he⟩ := leads_endPart h
    exact ⟨b, c, mid, blank hb, hc, hr, hm, he⟩

theorem isSome_run_endPart (hb : Blank b) (hc : c ∈ clauseEnds) (hr : here.rest = b ++ c :: rest) :
    ((all endPart).run here stopHere).isSome = true := by
  have gap : (blanks : Pattern Slot).Prefers here (here.beyond b (c :: rest)) :=
      prefers_blanks hb hr fun d hd =>
    Option.mem_some_iff.mp hd ▸ isBlank_of_mem_clauseEnds hc
  have ends : (any [sign '{', sign ';'] : Pattern Slot).Prefers (here.beyond b (c :: rest))
      ((here.beyond b (c :: rest)).beyond [c] rest) := by
    rcases List.mem_pair.mp hc with rfl | rfl
    · exact (prefers_sign rfl).any_cons
    · exact (prefers_sign rfl).any_of_fails (fails_sign (by simp))
  have run : (all endPart).run here stopHere = _ := gap.run_all (ends.run_mark rfl)
  rw [run, Option.isSome_some]

theorem isSome_run_typeConstraintsPart (h : m.IsWritten) (hr : here.rest = m.endText rest) :
    ((all typeConstraintsPart).run here stopHere).isSome = true := by
  rw [typeConstraintsPart, run_all_cons]
  rw [TypeText.endText, TypeText.constraintsText] at hr
  cases hc : m.constraints with
  | none =>
    rw [hc, List.nil_append] at hr
    have passed :
        (optional (all [someBlanks, literal "where".toList, someBlanks,
          lazyPlus (noneOf clauseEnds)]) : Pattern Slot).Leads here (.plain here) here
          (.plain here) := .right .nothing
    exact passed.isSome_run (isSome_run_endPart h.beforeEnd h.ending hr)
  | some c =>
    rw [hc] at hr
    simp only [ConstraintsText.text, List.append_assoc] at hr
    obtain ⟨before, after, constraints⟩ := h.constraints c hc
    have part :
        (all [someBlanks, literal "where".toList, someBlanks, lazyPlus (noneOf clauseEnds)] :
        Pattern Slot).Leads here (.plain here) _ (.plain here) :=
      leads_all_cons.mpr
        ⟨_, _, .plus_one before.1 before.2 hr, leads_all_cons.mpr ⟨_, _, .literal rfl,
        leads_all_cons.mpr ⟨_, _, .plus_one after.1 after.2 rfl,
          .lazyPlus_one (fun d hd => by simpa using constraints.2 d hd) constraints.1 rfl⟩⟩⟩
    exact part.left.isSome_run (isSome_run_endPart h.beforeEnd h.ending rfl)

theorem notMem_clauseEnds_of_blank (hb : Blank b) : ∀ d ∈ b, d ∉ clauseEnds := fun d hd hc => by
  have := isBlank_of_mem_clauseEnds hc
  rw [hb d hd] at this
  exact absurd this (by simp)

theorem TypeText.notMem_constraintsText (h : m.IsWritten) :
    ∀ d ∈ m.constraintsText, d ∉ clauseEnds := by
  rw [constraintsText]
  cases hc : m.constraints with
  | none => exact fun d hd => absurd hd List.not_mem_nil
  | some c =>
    obtain ⟨before, after, constraints⟩ := h.constraints c hc
    intro d hd
    simp only [ConstraintsText.text, List.mem_append] at hd
    rcases hd with hd | hd | hd | hd
    · exact notMem_clauseEnds_of_blank before.1 d hd
    · exact (by decide : ∀ d ∈ "where".toList, d ∉ clauseEnds) d hd
    · exact notMem_clauseEnds_of_blank after.1 d hd
    · exact constraints.2 d hd

theorem exists_run_constraints (h : m.IsWritten) (hr : here.rest = m.endText rest) :
    ∃ e, (all typeConstraintsPart).run here stopHere = some e ∧
      e.Tells fun slot => if slot = .ending then some [m.ending] else none := by
  obtain ⟨e, he⟩ := Option.isSome_iff_exists.mp (isSome_run_typeConstraintsPart h hr)
  obtain ⟨there, e', hover, hl⟩ := exists_leads_of_run he
  obtain ⟨t, c, mid, ht, hc, hr', hm, rfl⟩ := leads_typeConstraintsPart hl
  have before : ∀ d ∈ m.constraintsText ++ m.beforeEnd, d ∉ clauseEnds := fun d hd =>
    (List.mem_append.mp hd).elim (TypeText.notMem_constraintsText h d)
      (notMem_clauseEnds_of_blank h.beforeEnd d)
  rw [hr, TypeText.endText, ← List.append_assoc] at hr'
  rw [(append_end_inj before ht h.ending hc hr').2.1]
  obtain rfl := Option.some.inj hover
  exact ⟨_, he, Ending.tells_plain.marked hm⟩

theorem exists_run_bases (h : m.IsWritten) (hr : here.rest = m.bases.text [':'] ++ m.endText rest) :
    ∃ e, (all basesPart).run here stopHere = some e ∧
      e.Tells fun slot => if slot = .bases then m.bases.part? else if slot = .ending
        then some [m.ending] else none := by
  have hlater : (here.beyond (m.bases.text [':']) (m.endText rest)).rest = m.endText rest := rfl
  obtain ⟨e, he, ht⟩ := exists_run_constraints h hlater
  have opens := opensWith_typeConstraintsPart.of_run he
  rw [ClauseText.text] at hr he
  rw [ClauseText.part?]
  split at hr
  · next ho =>
    simp only [if_pos ho, List.nil_append] at hr he ⊢
    rw [← hr, Cursor.beyond_nil] at he
    have absent :
        (all [blanks, sign ':', blanks, mark Slot.bases (lazyPlus (noneOf clauseEnds))]).Fails
          here :=
      fails_sign_part marked_constraints ⟨by decide, by decide⟩ (by decide) (hr ▸ opens)
    exact ⟨e, (prefers_optional_of_fails absent).run_all he, tells_of_absent ht rfl⟩
  · next ho =>
    simp only [if_neg ho, List.append_assoc] at hr he ⊢
    have list := isClause_listed marked_constraints.words h.bases.supertypes ho
    have gap : (blanks : Pattern Slot).Prefers here _ :=
        prefers_blanks h.bases.before hr fun d hd =>
      Option.mem_some_iff.mp hd ▸ by decide
    have colon : (sign ':' : Pattern Slot).Prefers (here.beyond m.bases.before
      (':' :: (m.bases.after ++ (listed m.bases.supertypes ++ m.endText rest)))) _ :=
        prefers_sign rfl
    have gap' : (blanks : Pattern Slot).Prefers (here.beyond (m.bases.before ++ [':'])
      (m.bases.after ++ (listed m.bases.supertypes ++ m.endText rest))) _ :=
        prefers_blanks h.bases.after rfl fun d hd =>
        list.first d (by rwa [List.head?_append_of_ne_nil _ list.ne_nil] at hd)
    rw [Cursor.beyond_beyond] at colon gap'
    have place : ((here.beyond (m.bases.before ++ [':'] ++ m.bases.after)
        (listed m.bases.supertypes ++ m.endText rest)).beyond (listed m.bases.supertypes)
          (m.endText rest)) =
        here.beyond (m.bases.before ++ ([':'] ++ (m.bases.after ++ listed m.bases.supertypes)))
          (m.endText rest) := by
      simp
    have bases := (run_clause .bases list marked_constraints (fun d hd => list.ends d hd)
      opensWith_typeConstraintsPart (opens.noWord marked_constraints) rfl (place ▸ he)).2
    exact ⟨_, run_optional_cons (gap.run_all (colon.run_all (gap'.run_all bases))), ht.marked rfl⟩

/-! ### The kind -/

/-- What stands behind `record`, if anything does. -/
def sortPart : Pattern Slot := optional (seq someBlanks (oneOf recordSorts))

/-- The key words of a kind without its mark. -/
def kindBody : Pattern Slot :=
  any [literal "class".toList, literal "interface".toList, literal "struct".toList,
    literal "enum".toList, seq (literal "record".toList) sortPart]

theorem kindPattern_eq : kindPattern = mark .kind kindBody := rfl

theorem keyWords_recordSorts : KeyWords recordSorts := ⟨by decide, by decide, by decide⟩

theorem fails_literal_append {v w : Text} (h : v.head? ≠ w.head?) (hv : v ≠ []) (hw : w ≠ [])
    (hr : here.rest = w ++ rest) :
    (literal v : Pattern Slot).Fails here := by
  refine fails_literal fun ⟨y, hy⟩ => h ?_
  have first : (v ++ y).head? = v.head? := List.head?_append_of_ne_nil v hv
  rw [← first, hy, hr, List.head?_append_of_ne_nil w hw]

/-- The key word of a kind is read, and what stands behind it for a record. -/
theorem run_kindBody {next : Next Slot} {kind : TypeKind} (hk : kind ≠ .annotationType)
    (hr : here.rest = kind.keyword ++ rest)
    (hs : kind = .recordType → sortPart.run (here.beyond kind.keyword rest) next = some e)
    (hn : kind ≠ .recordType → next (here.beyond kind.keyword rest) = some e) :
    kindBody.run here next = some e := by
  have fails {v : Text} (h : v.head? ≠ kind.keyword.head?) (hv : v ≠ []) :
      (literal v : Pattern Slot).Fails here :=
    fails_literal_append h hv (by cases kind <;> decide) hr
  have word : (literal kind.keyword : Pattern Slot).Prefers here _ := prefers_literal hr
  cases kind with
  | classType => exact word.any_cons _ _ (hn (by simp))
  | interfaceType =>
    exact (word.any_cons.any_of_fails (fails (by decide) (by decide))) _ _ (hn (by simp))
  | structType =>
    refine (word.any_cons.any_of_fails (fails (by decide) (by decide))).any_of_fails
      (fails (by decide) (by decide))
      _ _ (hn (by simp))
  | enumType =>
    exact (((word.any_cons.any_of_fails (fails (by decide) (by decide))).any_of_fails
      (fails (by decide) (by decide))).any_of_fails (fails (by decide) (by decide))) _
        _ (hn (by simp))
  | recordType =>
    rw [kindBody, run_any_cons, fails (by decide) (by decide), Option.none_or, run_any_cons,
      fails (by decide) (by decide), Option.none_or, run_any_cons, fails (by decide) (by decide),
        Option.none_or,
      run_any_cons, fails (by decide) (by decide), Option.none_or]
    exact word.run_seq (hs rfl)
  | annotationType => exact absurd rfl hk

/-- The word at the start of a text is one word. -/
theorem append_word_inj {u v x y : Text} (hu : ∀ c ∈ u, isWord c = true)
    (hv : ∀ c ∈ v, isWord c = true)
    (hx : ∀ c ∈ x.head?, isWord c = false) (hy : ∀ c ∈ y.head?, isWord c = false)
    (h : u ++ x = v ++ y) : u = v := by
  have word {u x : Text} (hu : ∀ c ∈ u, isWord c = true) (hx : ∀ c ∈ x.head?, isWord c = false) :
      (u ++ x).takeWhile isWord = u := by
    rw [List.takeWhile_append_of_pos hu, List.append_right_eq_self]
    cases x with
    | nil => rfl
    | cons c x => exact List.takeWhile_cons_of_neg (by simp [hx c rfl])
  rw [← word hu hx, h, word hv hy]

/-- A name is not mistaken for the second key word of a record. -/
theorem run_sortPart_of_name {next : Next Slot} {gap name : Text} (hg : Blank gap)
    (hn : isIdentifier name = true)
    (hs : name ∉ recordSorts) (ht : ∀ c ∈ rest.head?, isWord c = false)
    (hr : here.rest = gap ++ (name ++ rest))
    (hnext : ∀ there, (next there).isSome = true → ∃ b, Blank b ∧ b ≠ [] ∧ b <+: there.rest) :
    sortPart.run here next = next here := by
  have noSort : (seq someBlanks (oneOf recordSorts)).run here next = none := by
    refine run_eq_none fun there e e' h => ?_
    cases h with
    | seq hgap hword =>
      obtain ⟨b, hb, -, hr', rfl⟩ := leads_someBlanks hgap
      obtain ⟨w, hw, hr'', rfl⟩ := leads_oneOf hword
      by_contra hf
      obtain ⟨g, hg', hne, later, hl⟩ := hnext there (Option.isSome_iff_ne_none.mpr hf)
      have word : isIdentifier w = true :=
        (by decide : ∀ w ∈ recordSorts, isIdentifier w = true) w hw
      have ends : ∀ c ∈ there.rest.head?, isWord c = false := fun c hc => by
        rw [← hl, List.head?_append_of_ne_nil _ hne] at hc
        exact isWord_of_isBlank (hg' c (List.mem_of_mem_head? hc))
      obtain ⟨d, name, rfl⟩ := List.exists_cons_of_ne_nil (ne_nil_of_isIdentifier hn)
      obtain ⟨f, w, rfl⟩ := List.exists_cons_of_ne_nil (ne_nil_of_isIdentifier word)
      rw [hr, hr''] at hr'
      have first := blank_append_cons_inj hg hb (solid_of_isIdentifier hn d List.mem_cons_self)
        (solid_of_isIdentifier word f List.mem_cons_self) hr'
      have same := append_word_inj (isWord_of_isIdentifier hn) (isWord_of_isIdentifier word) ht ends
        (congrArg₂ List.cons first.1 first.2)
      exact hs (same ▸ hw)
  rw [sortPart, run_optional, noSort, Option.none_or]

/-- The second key word of a record is read in front of blanks. -/
theorem prefers_sortPart {gap w : Text} (hg : Blank gap ∧ gap ≠ []) (hw : w ∈ recordSorts)
    (hb : Blank b ∧ b ≠ []) (hr : here.rest = gap ++ (w ++ (b ++ rest))) :
    sortPart.Prefers here (here.beyond (gap ++ w) (b ++ rest)) := by
  have blank : (someBlanks : Pattern Slot).Prefers here (here.beyond gap (w ++ (b ++ rest))) :=
    prefers_someBlanks hg.1 hg.2 hr fun c hc => by
      rw [List.head?_append_of_ne_nil _ (keyWords_recordSorts.ne_nil hw)] at hc
      exact keyWords_recordSorts.solid w hw c (List.mem_of_mem_head? hc)
  have word : (oneOf recordSorts : Pattern Slot).Prefers (here.beyond gap (w ++ (b ++ rest))) _ :=
    prefers_oneOf hw rfl fun v hv hp => keyWords_recordSorts.eq_of_prefix hv hw hb.1 hb.2 hp
  rw [Cursor.beyond_beyond] at word
  exact (blank.seq word).optional

theorem exists_run_kind {name : Text} (h : m.IsWritten) (hn : isIdentifier name = true)
    (hs : name ∉ recordSorts) (hb : Blank b ∧ b ≠ []) (ht : ∀ c ∈ t.head?, isWord c = false)
    (hr : here.rest = m.kindText ++ (b ++ (name ++ t)))
    (he : (all (someBlanks :: ps)).run (here.beyond m.kindText (b ++ (name ++ t))) stopHere =
    some e) (htells : e.Tells parts) :
    ∃ e', (all (kindPattern :: someBlanks :: ps)).run here stopHere = some e' ∧
      e'.Tells fun slot => if slot = .kind then some m.kindText else parts slot := by
  let next : Next Slot :=
    fun there => ((all (someBlanks :: ps)).run there stopHere).map (.markEnd .kind there)
  have blank : ∀ there, (next there).isSome = true → ∃ b, Blank b ∧ b ≠ [] ∧ b <+: there.rest := by
    intro there hsome
    rw [Option.isSome_map] at hsome
    obtain ⟨_, _, _, hl, -⟩ := isSome_run_iff.mp hsome
    obtain ⟨_, _, hgap, -⟩ := leads_all_cons.mp hl
    obtain ⟨b, hb, hne, hr, -⟩ := leads_someBlanks hgap
    exact ⟨b, hb, hne, _, hr.symm⟩
  have last : next (here.beyond m.kindText (b ++ (name ++ t))) =
      some (.markEnd .kind (here.beyond m.kindText (b ++ (name ++ t))) e) :=
        congrArg (Option.map _) he
  have body :
      kindBody.run here next =
        some (.markEnd .kind (here.beyond m.kindText (b ++ (name ++ t))) e) := by
    rw [TypeText.kindText] at hr last ⊢
    cases hsort : m.sort with
    | none =>
      simp only [hsort] at hr last ⊢
      refine run_kindBody h.kind hr (fun _ => ?_) fun _ => last
      rw [run_sortPart_of_name hb.1 hn hs ht rfl blank, last]
    | some p =>
      obtain ⟨gap, w⟩ := p
      obtain ⟨record, hg, hw⟩ := h.sort _ hsort
      simp only [hsort, List.append_assoc] at hr last ⊢
      refine run_kindBody h.kind hr (fun _ => prefers_sortPart hg hw hb rfl _ _ ?_) fun other =>
        absurd record other
      rw [Cursor.beyond_beyond]
      exact last
  have run : (all (kindPattern :: someBlanks :: ps)).run here stopHere =
      some (e.marked .kind here (here.beyond m.kindText (b ++ (name ++ t)))) := by
    rw [run_all_cons, kindPattern_eq]
    exact congrArg (Option.map _) body
  exact ⟨_, run, htells.marked hr⟩

theorem words_kindText (h : m.IsWritten) : (words m.kindText).head? = some m.kind.keyword := by
  have word := words_keyword m.kind
  rw [TypeText.kindText]
  cases hsort : m.sort with
  | none => exact congrArg List.head? word
  | some p =>
    obtain ⟨-, hg, -⟩ := h.sort _ hsort
    exact congrArg List.head? ((words_append_gap hg.1 hg.2 _ _).trans (congrArg (· ++ _) word))

/-! ### The whole header -/

theorem typeHeader?_of_tells {kind : TypeKind} {ending : Char} (h : e.Tells parts) (first : Cursor)
    (hk : (words ((parts .kind).getD [])).head? = some kind.keyword)
    (he : parts .ending = some [ending])
    (hb : ending = ';' → parts .components ≠ none) : typeHeader? ⟨first, e⟩ = some {
      place := first
      kind := kind
      name := (parts .name).getD []
      modifiers := words ((parts .modifiers).getD [])
      typeParameters := (parts .typeParameters).map collapse
      baseTypes := splitClause (parts .bases)
      parents := []
      interfaces := []
      permitted := []
      components := parts .components } := by
  have body : ¬([ending] = [';'] ∧ parts .components = none) :=
    fun ⟨hs, hn⟩ => hb (List.head_eq_of_cons_eq hs) hn
  simp only [typeHeader?, Match.text, h first, he, Option.getD_some, if_neg body, hk,
    Option.bind_eq_bind, Option.bind_some, TypeKind.ofKeyword?_keyword]
  rfl

/-- Whatever stands behind a type header, the first one that is found is that header with its parts.
-/
theorem head?_typeHeaders_text (h : m.IsWritten) (trailing : Text) :
    (typeHeaders (m.text ++ trailing)).head? = some (m.header trailing) := by
  let place := Cursor.ofText (m.text ++ trailing)
  let behindName := m.bases.text [':'] ++ m.endText trailing
  let afterName := m.name.typeParametersText ++ (m.name.componentsText ++ behindName)
  let behindKind := m.name.beforeName ++ (m.name.name ++ afterName)
  let atKind := place.beyond (spaced m.modifiers) (m.kindText ++ behindKind)
  let atName := atKind.beyond m.kindText behindKind
  have hplace : place.rest = spaced m.modifiers ++ (m.kindText ++ behindKind) := by
    simp [place, behindKind, afterName, behindName, TypeText.text, TypeText.endText,
      NameText.text, Cursor.ofText]
  have hkind : atKind.rest = m.kindText ++ (m.name.beforeName ++ (m.name.name ++ afterName)) := rfl
  have hname : atName.rest = m.name.text ++ behindName := by
    simp [atName, behindKind, afterName, NameText.text]
  have hlater : (atName.beyond m.name.text behindName).rest = behindName := rfl
  obtain ⟨e₁, bases, ht₁⟩ := exists_run_bases h hlater
  obtain ⟨e₂, name, ht₂⟩ :=
    exists_run_typeName h.name marked_bases (by decide) opensWith_basesPart hname
      bases ht₁ ⟨rfl, rfl⟩
  have noWord : ∀ c ∈ afterName.head?, isWord c = false :=
    NameText.noWord_behind h.name marked_bases (opensWith_basesPart.of_run bases)
  obtain ⟨e₃, kind, ht₃⟩ :=
    exists_run_kind h h.name.name h.noSort h.name.beforeName noWord hkind name ht₂
  have keyword : ∃ gap t, (Blank gap ∧ gap ≠ []) ∧
      m.kindText ++ behindKind = m.kind.keyword ++ (gap ++ t) := by
    rw [TypeText.kindText]
    cases hsort : m.sort with
    | none => exact ⟨m.name.beforeName, _, h.name.beforeName, rfl⟩
    | some p =>
        exact ⟨p.1, p.2 ++ behindKind, (h.sort _ hsort).2.1, by simp only [List.append_assoc]⟩
  obtain ⟨gap, t, hg, hkey⟩ := keyword
  have edge : atKind.before.head?.any isWord = false :=
    before_beyond_of_getLast h.modifiers.getLast?_spaced rfl
  have atEdge : (wordEdge : Pattern Slot).Prefers atKind atKind := by
    refine prefers_wordEdge (atWordEdge_of_word edge ?_)
    rw [show atKind.rest = m.kindText ++ behindKind from rfl, hkey]
    cases hk : m.kind <;> first | exact absurd hk h.kind | rfl
  have noModifier : (modifierRound typeModifiers).Fails atKind :=
    fails_modifierRound_keyword keyWords_typeModifiers (by cases m.kind <;> decide) hg hkey
  have modifiers : (star (modifierRound typeModifiers)).Prefers place atKind :=
    prefers_modifiers keyWords_typeModifiers h.modifiers hplace rfl
      (by rw [hkey]; exact head?_keyword_append m.kind _) noModifier
  have run : typePattern.run place stopHere = _ := modifiers.run_all_mark (atEdge.run_all kind)
  have typeParameters : (m.name.typeParameters.map fun p => p.1 ++ bracketed p.2).map collapse =
      m.name.typeParameters.map fun p => collapse (bracketed p.2) := by
    rw [Option.map_map]
    exact Option.map_congr fun p hp => collapse_blank_append (h.name.typeParameters p hp).1 _
  have body : m.ending = ';' → m.name.components.map (·.2) ≠ none :=
    fun hs hn => h.body hs (Option.map_eq_none_iff.mp hn)
  rw [typeHeaders, head?_filterMap_allMatches run
    (typeHeader?_of_tells (ht₃.marked hplace) _ (words_kindText h) rfl body)]
  simp [TypeText.header, typeParameters, words_spaced (h.modifiers.isRun keyWords_typeModifiers),
    splitClause_part? h.bases]

end SourceSurvey.Source.CSharp
