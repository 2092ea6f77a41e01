import SourceSurvey.Proofs.WideClause
import SourceSurvey.Source.Grammar

/-! The patterns of headers in a text and in the text with one more blank. Each part of a pattern
keeps the agreement of what stands behind it, so from places beside each other a pattern comes to
endings alike; only the clauses ask for something, that none of their words hangs in front of the
newline. -/

namespace SourceSurvey

open Text Pattern

namespace Language

/-- The words that stand in front of a clause of a header. -/
def clauseWords : Language → List Text
  | .csharp => ["where".toList]
  | .java => ["extends".toList, "implements".toList, "permits".toList, "throws".toList]

/-- The signs that end a clause. -/
def clauseEnds : Language → Text
  | .csharp => ['\x7b', ';', '=']
  | .java => ['\x7b', ';']

end Language

namespace Source.Widening

variable {g : Widening} {P : Cursor → Prop} {N N' : Next Slot} {ps : List (Pattern Slot)}
  {p : Pattern Slot} {words : List Text} {barred : Text}

/-! ### Parts of headers -/

theorem agree_optional_cons (h : Agree g P ((all ps).run · N) ((all ps).run · N'))
    (hp : Agree g P (p.run · ((all ps).run · N)) (p.run · ((all ps).run · N'))) :
    Agree g P ((all (optional p :: ps)).run · N) ((all (optional p :: ps)).run · N') :=
  agree_all_cons (agree_optional h hp)

theorem Agree.of_anywhere (h : Agree g Anywhere N N') : Agree g P N N' :=
  fun here here' hb _ => h here here' hb trivial

theorem agree_modifierRound (hw : ∀ w ∈ words, w.head?.any isWord = true ∧ Solid w)
    (h : Agree g Anywhere N N') (hs' : Shuns Text.isBlank N') :
    Agree g Anywhere ((modifierRound words).run · N) ((modifierRound words).run · N') := by
  have keys : Shy Text.isBlank (all [oneOf words, someBlanks] : Pattern Slot) :=
    (shy_words outside_isBlank fun w hm => (hw w hm).1).all_cons
  have gap : Agree g Anywhere (someBlanks.run · N) (someBlanks.run · N') :=
    agree_someBlanks (fun _ _ _ _ => trivial) h hs'
  exact agree_all_cons
    (agree_wordEdge (agree_all_cons (agree_oneOf (fun w hm => (hw w hm).2) gap)) (keys N) (keys N'))

theorem agree_modifierRun (hw : ∀ w ∈ words, w.head?.any isWord = true ∧ Solid w)
    (hs : Shy Text.isBlank (all ps)) (h : Agree g Anywhere ((all ps).run · N) ((all ps).run · N')) :
    Agree g Anywhere ((all (modifierRun words :: ps)).run · N)
      ((all (modifierRun words :: ps)).run · N') := by
  have shuns : ∀ N : Next Slot, Shuns Text.isBlank fun there =>
      ((all ps).run there N).map (.markEnd .modifiers there) :=
    fun N here hb => Option.map_eq_none_iff.mpr (hs N here hb)
  refine agree_all_cons
    (agree_mark (agree_star_of_shy (shy_modifierRound outside_isBlank fun w hm => (hw w hm).1)
    (fun M M' hM _ hM' => agree_modifierRound hw hM hM') h.markEnd (shuns N) (shuns N')))

theorem agree_identifier (h : Agree g Anywhere N N') :
    Agree g P (identifier.run · N) (identifier.run · N') := by
  have later : Agree g Anywhere ((star (one isWord)).run · N) ((star (one isWord)).run · N') :=
    agree_star (strides_one (fun hn => absurd hn (by decide)) fun _ _ _ _ _ _ => trivial) h
  exact agree_one (fun c hc => isBlank_of_isNameStart hc) later fun _ _ _ _ _ _ => trivial

theorem agree_named (h : Agree g Anywhere N N') : Agree g P (named.run · N) (named.run · N') :=
  agree_mark (agree_identifier h.markEnd)

theorem lets_blank (g : Widening) (hb : ∀ c ∈ barred, Text.isBlank c = false) :
    (!barred.contains g.blank) = true := by
  have outside : g.blank ∉ barred :=
    notMem_of_blank hb (b := [g.blank]) (by simpa [Blank] using g.proper) _ (by simp)
  simpa using outside

theorem agree_angleGroup (hb : ∀ c ∈ barred, Text.isBlank c = false) (h : Agree g Anywhere N N') :
    Agree g P ((angleGroup barred).run · N) ((angleGroup barred).run · N') := by
  have close : Agree g Anywhere ((sign '>').run · N) ((sign '>').run · N') :=
    agree_sign (by decide) h fun _ _ _ _ => trivial
  have inner : Agree g Anywhere ((lazyPlus (noneOf barred)).run · ((sign '>').run · N))
      ((lazyPlus (noneOf barred)).run · ((sign '>').run · N')) :=
    agree_lazyPlus (fun _ => lets_blank g hb) close (shy_sign (by decide) N')
  exact agree_all_cons (agree_sign (by decide) (agree_all_cons inner) fun _ _ _ _ => trivial)

theorem agree_returnType (signs : Text) (hn : '\n' ∉ signs) (h : Agree g Anywhere N N') :
    Agree g P ((returnTypePart signs).run · N) ((returnTypePart signs).run · N') := by
  have newline : (isWord '\n' || signs.contains '\n') = true →
      (isWord g.blank || signs.contains g.blank) = true := by
    have word : isWord '\n' = false := by decide
    simp [word, hn]
  have later :
      Agree g Anywhere ((lazyStar (typeCharacter signs)).run · fun there =>
        (N there).map (.markEnd .returnType there))
      ((lazyStar (typeCharacter signs)).run · fun there =>
        (N' there).map (.markEnd .returnType there)) :=
    agree_lazyStar (strides_one newline fun _ _ _ _ _ _ => trivial) h.markEnd
  exact agree_mark
    (agree_one (fun c hc => isBlank_of_isNameStart hc) later fun _ _ _ _ _ _ => trivial)

/-- A run of characters that lets every blank in. -/
theorem agree_star_noneOf (hb : ∀ c ∈ barred, Text.isBlank c = false) (h : Agree g Anywhere N N') :
    Agree g P ((star (noneOf barred)).run · N) ((star (noneOf barred)).run · N') :=
  (agree_star (strides_one (fun _ => lets_blank g hb) fun _ _ _ _ _ _ => trivial) h).of_anywhere

theorem agree_closing (h : Agree g Free N N') :
    Agree g P ((sign ')').run · N) ((sign ')').run · N') :=
  agree_sign (by decide) h fun _ _ _ _ => free_past (by decide) _ _

/-- A part in parentheses, which leaves a place behind no word. -/
theorem agree_parenthesised (hp : ∀ N N' : Next Slot, Agree g Anywhere N N' →
    Agree g Anywhere (p.run · N) (p.run · N'))
    (h : Agree g Free N N') :
    Agree g P ((all [sign '(', p, sign ')']).run · N) ((all [sign '(', p, sign ')']).run · N') :=
  agree_all_cons
    (agree_sign (by decide) (agree_all_cons (hp _ _ (agree_closing h))) fun _ _ _ _ => trivial)

theorem agree_componentList (h : Agree g Anywhere ((all ps).run · N) ((all ps).run · N')) :
    Agree g Anywhere ((all (componentList :: ps)).run · N)
      ((all (componentList :: ps)).run · N') := by
  have inner : ∀ N N' : Next Slot, Agree g Anywhere N N' → Agree g Anywhere
      ((mark .components (star (noneOf [')']))).run · N)
        ((mark .components (star (noneOf [')']))).run · N') :=
    fun _ _ h => agree_mark (agree_star_noneOf (by decide) h.markEnd)
  exact agree_optional_cons h (agree_all_cons (agree_blanks (fun _ _ _ _ _ => trivial)
    (agree_parenthesised inner h.of_anywhere)))

theorem strides_flatUnit : Strides g Anywhere isPlain flatUnit where
  gap N here c rest hr hc := by
    have opens : Shy Text.isBlank (sign '(' : Pattern Slot) := shy_sign (by decide)
    have group : (all [sign '(', star (one isPlain), sign ')'] : Pattern Slot).run here N = none :=
      opens.all_cons N here (by simpa [hr] using hc)
    rw [flatUnit, run, group, Option.or_none, run_one_cons hr]
  step N N' h here here' hb hp hn := by
    have inner : ∀ N N' : Next Slot, Agree g Anywhere N N' →
        Agree g Anywhere ((star (one isPlain)).run · N) ((star (one isPlain)).run · N') :=
      fun _ _ h => agree_star_noneOf (by decide) h
    exact rel_or
      ((strides_one (fun _ => lets_blank g (by decide)) fun _ _ _ _ _ _ => trivial).step N N' h here
      here' hb hp hn)
      (agree_parenthesised inner h.of_anywhere here here' hb hp)
  wide _ := lets_blank g (by decide)
  keeps _ _ _ _ _ _ := trivial

theorem agree_flatParentheses (h : Agree g Anywhere N N') :
    Agree g Anywhere (flatParentheses.run · N) (flatParentheses.run · N') :=
  agree_star strides_flatUnit h

theorem agree_parameterList (h : Agree g Free N N') :
    Agree g P (parameterList.run · N) (parameterList.run · N') := by
  have inner : ∀ N N' : Next Slot, Agree g Anywhere N N' → Agree g Anywhere
      ((mark .parameters flatParentheses).run · N) ((mark .parameters flatParentheses).run · N') :=
    fun _ _ h => agree_mark (agree_flatParentheses h.markEnd)
  have list : Agree g Anywhere (parameterList.run · N) (parameterList.run · N') :=
    agree_all_cons (agree_blanks (fun _ _ _ _ _ => trivial) (agree_parenthesised inner h))
  exact list.of_anywhere

/-! ### Clauses of headers -/

/-- The last parts of a pattern, which keep the agreement and can only come to an end in front of
one of some signs. -/
structure Ends (g : Widening) (P : Cursor → Prop) (E : Text) (ps : List (Pattern Slot)) : Prop where
  agree : Agree g P ((all ps).run · stopHere) ((all ps).run · stopHere)
  closes : Closes E ((all ps).run · stopHere)

section Clauses

variable {language : Language} {w E : Text} {L : Pattern Slot}

theorem Ends.blanks (hE : ∀ c ∈ E, Text.isBlank c = false) (h : Ends g Anywhere E ps) :
    Ends g P E (blanks :: ps) where
  agree := by
    have all :
        Agree g Anywhere ((all (Pattern.blanks :: ps)).run · stopHere)
          ((all (Pattern.blanks :: ps)).run · stopHere) :=
      agree_all_cons (agree_blanks (fun _ _ _ _ _ => trivial) h.agree)
    exact all.of_anywhere
  closes := by
    have closes : Closes E (Pattern.blanks.run · ((all ps).run · stopHere)) := h.closes.blanks hE
    simpa only [run_all_cons] using closes

section Signs

variable {marks : List Text} (hs : ∀ t ∈ marks, Solid t)
  (hh : ∀ t ∈ marks, t.head?.any (· ∈ E) = true)
include hs hh

omit hs in
theorem exists_head_of_oneOf {here there : Cursor} {e e' : Ending Slot}
    (hl : (oneOf marks).Leads here e there e') :
    ∃ c ∈ here.rest.head?, c ∈ E := by
  obtain ⟨t, ht, hr, -⟩ := leads_oneOf hl
  obtain ⟨c, hc, hce⟩ := (Option.any_eq_true _ _).mp (hh t ht)
  refine ⟨c, ?_, of_decide_eq_true hce⟩
  rw [hr, List.head?_append, hc]
  rfl

/-- Signs at the end of a header. -/
theorem ends_oneOf : Ends g P E [oneOf marks] where
  agree := agree_oneOf hs agree_stopHere
  closes := closes_of_head fun here hr => by
    obtain ⟨there, e, e', hl, -⟩ := isSome_run_iff.mp hr
    exact exists_head_of_oneOf hh hl

theorem ends_mark_oneOf (slot : Slot) : Ends g P E [mark slot (oneOf marks)] where
  agree := agree_mark (agree_oneOf hs agree_stopHere.markEnd)
  closes := closes_of_head fun here hr => by
    obtain ⟨there, e, e', hl, -⟩ := isSome_run_iff.mp hr
    cases hl with
    | mark hl => exact exists_head_of_oneOf hh hl

end Signs

theorem Ends.optional_cons (h : Ends g P E ps)
    (hp : Agree g P (p.run · ((all ps).run · stopHere)) (p.run · ((all ps).run · stopHere)))
    (ha : Avoids E p) : Ends g P E (optional p :: ps) where
  agree := agree_optional_cons h.agree hp
  closes := by
    have closes : Closes E ((optional p).run · ((all ps).run · stopHere)) := h.closes.optional ha
    simpa only [run_all_cons] using closes

variable (hg : ¬Hangs language.clauseWords language.clauseEnds g.front g.behind)
  (hw : w ∈ language.clauseWords) (hE : ∀ c ∈ E, c ∈ language.clauseEnds) (hL : IsClause g E L)

theorem solid_of_mem_clauseWords (hw : w ∈ language.clauseWords) :
    (w ≠ [] ∧ w.head?.any Text.isBlank = false) ∧ Solid w ∧ ∀ c ∈ w, c ∉ language.clauseEnds := by
  have all : ∀ w ∈ language.clauseWords, (w ≠ [] ∧ w.head?.any Text.isBlank = false) ∧ Solid w ∧
      ∀ c ∈ w, c ∉ language.clauseEnds := by
    cases language <;> decide
  exact all w hw

theorem noBlank_of_clauseEnds (hE : ∀ c ∈ E, c ∈ language.clauseEnds) :
    ∀ c ∈ E, Text.isBlank c = false := by
  have all : ∀ c ∈ language.clauseEnds, Text.isBlank c = false := by cases language <;> decide
  exact fun c hc => all c (hE c hc)

include hg hw hE hL

omit hg in
theorem avoids_wordClause : Avoids E (all [literal w, someBlanks, L]) := by
  have word := solid_of_mem_clauseWords hw
  have noBlank := noBlank_of_clauseEnds hE
  exact (avoids_literal fun c hc hce => word.2.2 c hc (hE c hce)).all_cons
    ((avoids_someBlanks noBlank).all_cons (hL.avoids.all_cons avoids_all_nil))

theorem Ends.wordClause (h : Ends g Anywhere E ps) :
    Agree g Free ((all [literal w, someBlanks, L]).run · ((all ps).run · stopHere))
      ((all [literal w, someBlanks, L]).run · ((all ps).run · stopHere)) :=
  agree_word_clause (noBlank_of_clauseEnds hE) hL h.agree h.closes h.closes hw
    (solid_of_mem_clauseWords hw).2.1 hE hg

/-- A clause behind a word with blanks in front. -/
theorem Ends.someBlanks_clause (h : Ends g Anywhere E ps) :
    Ends g Anywhere E (optional (all [someBlanks, literal w, someBlanks, L]) :: ps) := by
  have word := solid_of_mem_clauseWords hw
  have clause := h.wordClause hg hw hE hL
  refine h.optional_cons
    (agree_all_cons
    (agree_someBlanks (fun _ _ _ hc => free_past (isWord_of_isBlank hc) _ _) clause ?_)) ?_
  · exact (shy_literal word.1.1 word.1.2).all_cons _
  · exact (avoids_someBlanks (noBlank_of_clauseEnds hE)).all_cons (avoids_wordClause hw hE hL)

/-- A clause behind a word that may follow directly on what is no word. -/
theorem Ends.blanks_clause (h : Ends g Anywhere E ps) :
    Ends g Free E (optional (all [Pattern.blanks, literal w, someBlanks, L]) :: ps) := by
  have clause := h.wordClause hg hw hE hL
  have free : Ends g Free E ps := ⟨h.agree.of_anywhere, h.closes⟩
  refine free.optional_cons
    (agree_all_cons (agree_blanks (fun _ _ _ _ hc => free_past (isWord_of_isBlank hc) _ _) clause))
    ?_
  exact (avoids_blanks (noBlank_of_clauseEnds hE)).all_cons (avoids_wordClause hw hE hL)

end Clauses

/-! ### The patterns -/

section Patterns

variable {language : Language}

theorem agree_typeParameters (barred : Text) (hb : ∀ c ∈ barred, Text.isBlank c = false)
    (h : Agree g Anywhere ((all ps).run · N) ((all ps).run · N')) :
    Agree g Anywhere
      ((all (optional (mark .typeParameters (seq blanks (angleGroup barred))) :: ps)).run · N)
      ((all (optional (mark .typeParameters (seq blanks (angleGroup barred))) :: ps)).run · N') :=
  agree_optional_cons h
    (agree_mark (agree_blanks (fun _ _ _ _ _ => trivial) (agree_angleGroup hb h.markEnd)))

/-- A name behind blanks. -/
theorem agree_someBlanks_named (h : Agree g Anywhere ((all ps).run · N) ((all ps).run · N')) :
    Agree g P ((all (someBlanks :: named :: ps)).run · N)
      ((all (someBlanks :: named :: ps)).run · N') :=
  agree_all_cons
    (agree_someBlanks (fun _ _ _ _ => trivial) (agree_all_cons (agree_named (P := Anywhere) h))
    ((shy_named outside_isBlank).all_cons N'))

/-- Modifiers in front of a word. -/
theorem agree_modifiers_edge (hw : ∀ w ∈ words, w.head?.any isWord = true ∧ Solid w)
    (hs : Shy Text.isBlank (all ps)) (h : Agree g Anywhere ((all ps).run · N) ((all ps).run · N')) :
    Agree g Anywhere ((all (modifierRun words :: wordEdge :: ps)).run · N)
      ((all (modifierRun words :: wordEdge :: ps)).run · N') :=
  agree_modifierRun hw (shy_wordEdge hs) (agree_all_cons (agree_wordEdge h (hs N) (hs N')))

theorem CSharp.agree_kindPattern (h : Agree g Anywhere N N') :
    Agree g P (CSharp.kindPattern.run · N) (CSharp.kindPattern.run · N') := by
  have ended : Agree g Anywhere (fun there => (N there).map (.markEnd .kind there))
      fun there => (N' there).map (.markEnd .kind there) := h.markEnd
  refine agree_mark (agree_any fun p hp => ?_)
  have word : ∀ t : Text, Solid t →
      Agree g P ((literal t).run · fun there => (N there).map (.markEnd .kind there))
      ((literal t).run · fun there => (N' there).map (.markEnd .kind there)) :=
    fun t ht => agree_literal ht ended fun _ _ _ _ => trivial
  simp only [List.mem_cons, List.not_mem_nil, or_false] at hp
  rcases hp with rfl | rfl | rfl | rfl | rfl
  · exact word _ (by decide)
  · exact word _ (by decide)
  · exact word _ (by decide)
  · exact word _ (by decide)
  · have sort :
        Agree g Anywhere ((seq someBlanks (oneOf ["class".toList, "struct".toList])).run · _) _ :=
      agree_someBlanks (Q := Anywhere) (fun _ _ _ _ => trivial) (agree_oneOf (by decide) ended)
        ((shy_words outside_isBlank (by decide)) _)
    exact agree_literal (by decide) (agree_optional ended sort) fun _ _ _ _ => trivial

theorem isClause_clauseText :
    IsClause g ['\x7b', ';'] (lazyPlus (noneOf ['\x7b', ';']) : Pattern Slot) :=
  isClause_lazyPlus (by decide)

/-- What stands behind the modifiers and type parameters of a Java member. -/
theorem Java.agree_memberTypeParameters (hs : Shy Text.isBlank (all ps))
    (h : Agree g Anywhere ((all ps).run · N) ((all ps).run · N')) :
    Agree g Anywhere ((all (Java.memberTypeParameters :: wordEdge :: ps)).run · N)
      ((all (Java.memberTypeParameters :: wordEdge :: ps)).run · N') := by
  have edge : Agree g Anywhere ((all (wordEdge :: ps)).run · N) ((all (wordEdge :: ps)).run · N') :=
    agree_all_cons (agree_wordEdge h (hs N) (hs N'))
  exact agree_optional_cons edge (agree_mark (agree_angleGroup (by decide)
    (agree_blanks (fun _ _ _ _ _ => trivial) edge.markEnd)))

theorem Java.agree_kindPattern (h : Agree g Anywhere N N') :
    Agree g Anywhere (Java.kindPattern.run · N) (Java.kindPattern.run · N') := by
  have keys :
      Shy Text.isBlank
        (oneOf ["interface".toList, "enum".toList, "record".toList,
        "class".toList] : Pattern Slot) :=
    shy_words outside_isBlank (by decide)
  exact agree_mark (agree_alt (agree_literal (by decide) h.markEnd fun _ _ _ _ => trivial)
    (agree_wordEdge (agree_oneOf (by decide) h.markEnd) (keys _) (keys _)))

/-- What stands behind a parameter list keeps the agreement, and so does the list with a name in
front. -/
theorem agree_named_list (h : Agree g Free ((all ps).run · N) ((all ps).run · N')) :
    Agree g Anywhere ((all (named :: parameterList :: ps)).run · N)
      ((all (named :: parameterList :: ps)).run · N') :=
  agree_all_cons (agree_named (agree_all_cons (agree_parameterList h)))

theorem CSharp.ends_memberEnd : Ends g P ['\x7b', ';', '='] [CSharp.memberEnd] := by
  have ending : Ends g P ['\x7b', ';', '='] [blanks, oneOf [['\x7b'], "=>".toList, [';']]] :=
    (ends_oneOf (by decide) (by decide)).blanks (by decide)
  exact ⟨ending.agree, ending.closes⟩

/-- A constructor has no clause but the call of another one, so nothing is asked. -/
theorem CSharp.agree_constructorPattern :
    Agree g Anywhere (CSharp.constructorPattern.run · stopHere)
      (CSharp.constructorPattern.run · stopHere) := by
  have ending :
      Agree g Free ((all [CSharp.memberEnd]).run · stopHere)
        ((all [CSharp.memberEnd]).run · stopHere) :=
    CSharp.ends_memberEnd.agree
  have call :
      Agree g Anywhere
        ((all [oneOf ["base".toList, "this".toList], blanks, sign '(', flatParentheses,
        sign ')']).run ·
      ((all [CSharp.memberEnd]).run · stopHere)) _ :=
    agree_all_cons (agree_oneOf (by decide) (agree_all_cons (agree_blanks (fun _ _ _ _ _ => trivial)
      (agree_parenthesised (fun _ _ h => agree_flatParentheses h) ending))))
  have initializer :
      Agree g Anywhere
        ((all [blanks, sign ':', blanks, oneOf ["base".toList, "this".toList], blanks, sign '(',
      flatParentheses, sign ')']).run · ((all [CSharp.memberEnd]).run · stopHere)) _ :=
    agree_all_cons (agree_blanks (fun _ _ _ _ _ => trivial) (agree_all_cons (agree_sign (by decide)
      (agree_all_cons (agree_blanks (fun _ _ _ _ _ => trivial) call)) fun _ _ _ _ => trivial)))
  exact agree_modifiers_edge (by decide) (shy_named outside_isBlank).all_cons
    (agree_named_list (agree_optional_cons ending initializer.of_anywhere))

/-- An annotation, wherever the further blank stands. -/
theorem Java.agree_attributePattern :
    Agree g Anywhere (Java.attributePattern.run · stopHere)
      (Java.attributePattern.run · stopHere) := by
  have list :
      Agree g Anywhere ((all [blanks, sign '(', flatParentheses, sign ')']).run · stopHere) _ :=
    agree_all_cons (agree_blanks (fun _ _ _ _ _ => trivial)
      (agree_parenthesised (fun _ _ h => agree_flatParentheses h) agree_stopHere))
  have name : Agree g Anywhere ((all [star (typeCharacter ['.']), _]).run · stopHere) _ :=
    agree_all_cons
      (agree_star (strides_one (fun hn => absurd hn (by decide)) fun _ _ _ _ _ _ => trivial)
      (agree_optional agree_stopHere list))
  have word :
      Agree g Anywhere ((all [one isNameStart, star (typeCharacter ['.']), _]).run · stopHere) _ :=
    agree_all_cons
      (agree_one (fun c hc => isBlank_of_isNameStart hc) name fun _ _ _ _ _ _ => trivial)
  exact agree_all_cons (agree_sign (by decide) word fun _ _ _ _ => trivial)

section CSharp

variable (hg : ¬Hangs (Language.clauseWords .csharp) (Language.clauseEnds .csharp) g.front g.behind)
include hg

theorem CSharp.agree_typePattern :
    Agree g Anywhere (CSharp.typePattern.run · stopHere) (CSharp.typePattern.run · stopHere) := by
  have ending : Ends g Anywhere ['\x7b', ';'] [blanks, mark .ending (oneOf [['\x7b'], [';']])] :=
    (ends_mark_oneOf (by decide) (by decide) .ending).blanks (by decide)
  have constraints :=
    ending.someBlanks_clause hg (w := "where".toList) (by decide) (by decide) isClause_clauseText
  have bases :=
    constraints.optional_cons
      (p := all [blanks, sign ':', blanks, mark .bases (lazyPlus (noneOf ['\x7b', ';']))])
    (agree_all_cons (agree_blanks (fun _ _ _ _ _ => trivial) (agree_all_cons (agree_sign (by decide)
      (agree_blanks_clause (P := Anywhere) (by decide) isClause_clauseText.mark constraints.agree
        constraints.closes
        constraints.closes)
      fun _ _ _ _ => trivial))))
    ((avoids_blanks (by decide)).all_cons
      ((avoids_sign (by decide)).all_cons ((avoids_blanks (by decide)).all_cons
      (avoids_lazyPlus.mark.all_cons avoids_all_nil))))
  have name :=
    agree_someBlanks_named (P := Anywhere) (agree_typeParameters ['\x7b', '\x7d', '(', ')', ';']
    (by decide) (agree_componentList bases.agree))
  exact agree_modifiers_edge (by decide) (CSharp.shy_kindPattern outside_isBlank).all_cons
    (agree_all_cons (CSharp.agree_kindPattern name))

theorem CSharp.agree_methodPattern :
    Agree g Anywhere (CSharp.methodPattern.run · stopHere)
      (CSharp.methodPattern.run · stopHere) := by
  have clause :
      IsClause g ['\x7b', ';', '='] (lazyPlus (noneOf ['\x7b', ';', '=']) : Pattern Slot) :=
    isClause_lazyPlus (by decide)
  have constraints :=
    CSharp.ends_memberEnd.blanks_clause hg (w := "where".toList) (by decide) (by decide) clause
  have list :
      Agree g Anywhere ((all (parameterList :: _)).run · stopHere)
        ((all (parameterList :: _)).run · stopHere) :=
    agree_all_cons (agree_parameterList constraints.agree)
  have name := agree_someBlanks_named (P := Anywhere)
    (agree_typeParameters ['\x7b', '\x7d', '(', ')', ';', '='] (by decide) list)
  exact agree_modifiers_edge (by decide) (shy_nameStart outside_isBlank).seq.mark.all_cons
    (agree_all_cons
      (agree_returnType ['.', '[', ']', '<', '>', ',', '?', ' ', '\t'] (by decide) name))

end CSharp

section Java

variable (hg : ¬Hangs (Language.clauseWords .java) (Language.clauseEnds .java) g.front g.behind)
include hg

theorem Java.ends_clauseAfter (w : Text) (slot : Slot) (hw : w ∈ Language.clauseWords .java)
    (h : Ends g Anywhere ['\x7b', ';'] ps) :
    Ends g Anywhere ['\x7b', ';'] (clauseAfter w slot :: ps) :=
  h.someBlanks_clause hg hw (by decide) isClause_clauseText.mark

theorem Java.agree_typePattern :
    Agree g Anywhere (Java.typePattern.run · stopHere) (Java.typePattern.run · stopHere) := by
  have ending : Ends g Anywhere ['\x7b', ';'] [blanks, oneOf [['\x7b']]] :=
    (ends_oneOf (by decide) (by decide)).blanks (by decide)
  have clauses := Java.ends_clauseAfter hg "extends".toList .parents (by decide)
    (Java.ends_clauseAfter hg "implements".toList .interfaces (by decide)
      (Java.ends_clauseAfter hg "permits".toList .permitted (by decide) ending))
  have name :=
    agree_someBlanks_named (P := Anywhere) (agree_typeParameters ['\x7b', '\x7d', '(', ')', ';']
    (by decide) (agree_componentList clauses.agree))
  exact agree_modifierRun (by decide) (Java.shy_kindPattern outside_isBlank).all_cons
    (agree_all_cons (Java.agree_kindPattern name))

/-- Thrown types and what ends a member. -/
theorem Java.agree_throws (ends : List Text) (hs : ∀ t ∈ ends, Solid t)
    (hh : ∀ t ∈ ends, t.head?.any (· ∈ [';', '\x7b']) = true) :
    Agree g Free ((all [Java.throwsClause, blanks, oneOf ends]).run · stopHere)
      ((all [Java.throwsClause, blanks, oneOf ends]).run · stopHere) := by
  have clause : IsClause g [';', '\x7b'] (lazyPlus (noneOf [';', '\x7b']) : Pattern Slot) :=
    isClause_lazyPlus (by decide)
  have ending : Ends g Anywhere [';', '\x7b'] [blanks, oneOf ends] :=
    (ends_oneOf hs hh).blanks (by decide)
  exact (ending.blanks_clause hg (w := "throws".toList) (by decide) (by decide) clause.mark).agree

theorem Java.agree_methodPattern :
    Agree g Anywhere (Java.methodPattern.run · stopHere) (Java.methodPattern.run · stopHere) := by
  have list := agree_all_cons (agree_parameterList (P := Anywhere)
    (Java.agree_throws hg [['\x7b'], [';']] (by decide) (by decide)))
  have type :=
    agree_all_cons
      (agree_returnType (P := Anywhere) ['.', '[', ']', '<', '>', '?', ',', '&', ' ',
      '\t'] (by decide)
    (agree_someBlanks_named list))
  exact agree_modifierRun (by decide)
    (Java.shy_memberTypeParameters outside_isBlank
      (shy_wordEdge (shy_nameStart outside_isBlank).seq.mark.all_cons))
    (Java.agree_memberTypeParameters (shy_nameStart outside_isBlank).seq.mark.all_cons type)

theorem Java.agree_constructorPattern :
    Agree g Anywhere (Java.constructorPattern.run · stopHere)
      (Java.constructorPattern.run · stopHere) := by
  have name := agree_named_list (Java.agree_throws hg [['\x7b']] (by decide) (by decide))
  exact agree_modifierRun (by decide)
    (Java.shy_memberTypeParameters outside_isBlank
      (shy_wordEdge (shy_named outside_isBlank).all_cons))
    (Java.agree_memberTypeParameters (shy_named outside_isBlank).all_cons name)

end Java

end Patterns

end Source.Widening

end SourceSurvey
