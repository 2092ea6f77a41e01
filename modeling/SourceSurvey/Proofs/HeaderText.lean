import SourceSurvey.Proofs.Clauses
import SourceSurvey.Proofs.JavaType
import SourceSurvey.Proofs.MemberName
import SourceSurvey.Proofs.Shy
import SourceSurvey.Proofs.Within

/-! What the patterns of headers read. In front of its list a header holds no parenthesis and
nothing that ends one, the parentheses of the list pair up as far as they are read, and behind the
list a header goes on to its last character without another end. So no header that begins in a text
whose parentheses pair up, and which ends in a closed body or statement, goes on behind the text. -/

namespace SourceSurvey

open Text Pattern

theorem Pattern.Avoids.notMem {σ : Type} {E w : Text} {p : Pattern σ} (hp : Avoids E p)
    (h : p.Reads w) :
    ∀ d ∈ w, d ∉ E :=
  h.elim fun _ _ _ _ hl => (hp hl).imp fun _ hw => hw.symm

/-- Nothing that a shy pattern reads begins with a character in front of which it comes to no
ending. -/
theorem Pattern.Shy.head?_any {σ : Type} {bad : Char → Bool} {w : Text} {p : Pattern σ}
    (hs : Shy bad p) (h : p.Reads w) :
    w.head?.any bad = false := by
  obtain ⟨here, there, ⟨e, e', hl⟩, hr⟩ := h
  by_contra hb
  rw [Bool.not_eq_false] at hb
  have found : (p.run here stopHere).isSome = true := hl.isSome_run rfl
  have first : here.rest.head?.any bad = true := by
    cases w with
    | nil => exact absurd hb (by simp)
    | cons c w => rwa [hr]
  rw [hs _ here first] at found
  exact absurd found (by simp)

namespace Source

variable {a b t u v w x y : Text} {c s : Char}

/-- A character of two texts put together stands in the one or in the other. -/
theorem exists_of_append_eq (h : u ++ v = a ++ c :: b) :
    (∃ z, u = a ++ c :: z ∧ b = z ++ v) ∨ ∃ z, a = u ++ z ∧ v = z ++ c :: b := by
  rcases List.append_eq_append_iff.mp h with ⟨z, rfl, hv⟩ | ⟨z, rfl, hz⟩
  · exact .inr ⟨z, rfl, hv⟩
  · cases z with
    | nil => exact .inr ⟨[], by simp, hz.symm⟩
    | cons d z =>
      obtain ⟨rfl, rfl⟩ := List.cons.inj hz
      exact .inl ⟨z, rfl, rfl⟩

/-! ### Parentheses -/

/-- No start of the text closes more parentheses than it opens. -/
def Rising (t : Text) : Prop := ∀ u, u <+: t → u.count ')' ≤ u.count '('

theorem rising_of_notMem (h : ')' ∉ t) : Rising t := fun u hu => by
  rw [List.count_eq_zero.mpr fun hm => h (hu.subset hm)]
  exact Nat.zero_le _

theorem count_plain (h : ∀ c ∈ t, isPlain c = true) : t.count '(' = 0 ∧ t.count ')' = 0 := by
  constructor <;> exact List.count_eq_zero.mpr fun hm => absurd (h _ hm) (by decide)

theorem Flat.count_eq (h : Flat t) : t.count '(' = t.count ')' := by
  induction h with
  | nil => rfl
  | plain hc _ ih =>
    rw [isPlain, Bool.not_eq_true', List.contains_eq_mem, decide_eq_false_iff_not] at hc
    simp only [List.mem_cons, List.not_mem_nil, or_false, not_or] at hc
    simp [ih, hc]
  | group hi _ ih =>
    simp [List.count_append, ih, count_plain hi]

theorem Flat.rising (h : Flat t) : Rising t := by
  induction h with
  | nil =>
    intro u hu
    rw [List.prefix_nil.mp hu]
    exact Nat.le_refl _
  | @plain c t hc _ ih =>
    intro u hu
    cases u with
    | nil => exact Nat.le_refl _
    | cons d u =>
      obtain ⟨rfl, hut⟩ := List.cons_prefix_cons.mp hu
      rw [isPlain, Bool.not_eq_true', List.contains_eq_mem, decide_eq_false_iff_not] at hc
      simp only [List.mem_cons, List.not_mem_nil, or_false, not_or] at hc
      simpa [hc] using ih u hut
  | @group inner t hi _ ih =>
    intro u hu
    cases u with
    | nil => exact Nat.le_refl _
    | cons d u =>
      obtain ⟨rfl, z, hz⟩ := List.cons_prefix_cons.mp hu
      rcases List.append_eq_append_iff.mp hz with ⟨v, rfl, -⟩ | ⟨v, rfl, hv⟩
      · simp [List.count_eq_zero.mpr fun hm =>
          absurd (hi ')' (List.mem_append_left v hm)) (by decide)]
      · cases v with
        | nil => simp [count_plain hi]
        | cons d v =>
          obtain ⟨rfl, hvt⟩ := List.cons.inj hv
          have := ih v ⟨z, hvt.symm⟩
          simp only [List.count_cons, List.count_append, count_plain hi]
          simpa using this

/-- A flat text in front of a closing parenthesis does not begin another one there. -/
theorem Flat.not_prefix (ha : Flat a) (hb : Rising b) : ¬a ++ [')'] <+: b := fun h => by
  have more : a.count ')' + 1 ≤ a.count ')' := by
    simpa [List.count_append, ha.count_eq] using hb _ h
  exact Nat.not_succ_le_self _ more

theorem Flat.append_inj (ha : Flat a) (hb : Flat b) (h : a ++ ')' :: x = b ++ ')' :: y) :
    a = b ∧ x = y := by
  rcases exists_of_append_eq h with ⟨z, rfl, -⟩ | ⟨z, rfl, hz⟩
  · exact absurd ⟨z, by simp⟩ (hb.not_prefix ha.rising)
  · cases z with
    | nil => simpa using hz
    | cons d z =>
      obtain ⟨rfl, -⟩ := List.cons.inj hz
      exact absurd ⟨z, by simp⟩ (ha.not_prefix hb.rising)

theorem reads_flatParentheses (h : flatParentheses.Reads w) : Flat w := by
  rw [flatParentheses_eq] at h
  refine h.elim fun _ _ _ _ hl => ?_
  generalize hp : star flatUnit = p at hl
  induction hl with
  | starDone => exact ⟨[], .nil, rfl⟩
  | starRound unit _ _ _ ih =>
    cases hp
    obtain ⟨t, ht, hr⟩ := ih rfl
    cases unit with
    | left unit =>
      obtain ⟨c, hc, hr', -⟩ := leads_one unit
      exact ⟨c :: t, .plain hc ht, by rw [hr', hr]; rfl⟩
    | right unit =>
      obtain ⟨_, _, opens, unit⟩ := leads_all_cons.mp unit
      obtain ⟨_, _, holds, closes⟩ := leads_all_cons.mp unit
      obtain ⟨inner, hi, hr', -⟩ := leads_star_one holds
      refine ⟨'(' :: (inner ++ ')' :: t), .group hi ht, ?_⟩
      rw [(leads_sign opens).1, hr', (leads_sign closes).1, hr]
      simp
  | _ => cases hp

theorem reads_parameterList (h : parameterList.Reads w) :
    ∃ b list, Blank b ∧ Flat list ∧ w = b ++ '(' :: (list ++ [')']) := by
  obtain ⟨b, _, rfl, gap, opened⟩ := h.all_cons
  obtain ⟨_, _, rfl, opens, inside⟩ := opened.all_cons
  obtain ⟨list, _, rfl, holds, closes⟩ := inside.all_cons
  obtain rfl := opens.sign
  obtain rfl : _ = [')'] := Reads.sign closes
  exact ⟨b, list, gap.blanks, reads_flatParentheses holds.mark, rfl⟩

theorem reads_componentList (h : componentList.Reads w) :
    w = [] ∨ ∃ b list, Blank b ∧ ')' ∉ list ∧ w = b ++ '(' :: (list ++ [')']) := by
  refine h.optional.imp_right fun h => ?_
  obtain ⟨b, _, rfl, gap, opened⟩ := h.all_cons
  obtain ⟨_, _, rfl, opens, inside⟩ := opened.all_cons
  obtain ⟨list, _, rfl, holds, closes⟩ := inside.all_cons
  obtain rfl := opens.sign
  obtain rfl : _ = [')'] := Reads.sign closes
  exact ⟨b, list, gap.blanks, fun hm => absurd (holds.mark.star_one _ hm) (by decide), rfl⟩

/-! ### What stands in front of a list -/

theorem isBlank_of_mem_typeBarred : ∀ c ∈ typeBarred, isBlank c = false := by decide

theorem notMem_typeBarred_of_isWord (h : isWord c = true) : c ∉ typeBarred := fun hm => by
  have none : ∀ d ∈ typeBarred, isWord d = false := by decide
  rw [none c hm] at h
  exact absurd h (by simp)

theorem avoids_modifierRun {words : List Text} (hw : ∀ w ∈ words, ∀ d ∈ w, d ∉ typeBarred) :
    Avoids typeBarred (modifierRun words) := by
  have gap : Avoids typeBarred (all [someBlanks] : Pattern Slot) :=
    avoids_someBlanks isBlank_of_mem_typeBarred
  exact (Avoids.star (avoids_wordEdge.all_cons ((avoids_oneOf hw).all_cons gap))).mark

theorem avoids_named : Avoids typeBarred named :=
  ((avoids_one fun _ h => notMem_typeBarred_of_isWord (isWord_of_isNameStart h)).seq
    (avoids_one fun _ h => notMem_typeBarred_of_isWord h).star).mark

theorem avoids_angleGroup {signs : Text} (h : ∀ d ∈ typeBarred, d ∈ signs) :
    Avoids typeBarred (angleGroup signs) := by
  have closes : Avoids typeBarred (all [sign '>'] : Pattern Slot) := avoids_sign (by decide)
  exact (avoids_sign (by decide)).all_cons ((avoids_lazyPlus_noneOf h).all_cons closes)

theorem avoids_returnTypePart {signs : Text} (h : ∀ d ∈ signs, d ∉ typeBarred) :
    Avoids typeBarred (returnTypePart signs) := by
  refine ((avoids_one fun _ hd => notMem_typeBarred_of_isWord (isWord_of_isNameStart hd)).seq
    (Avoids.lazyStar (avoids_one fun d hd => ?_))).mark
  rcases Bool.or_eq_true_iff.mp hd with hw | hs
  · exact notMem_typeBarred_of_isWord hw
  · exact h d (by simpa using hs)

section Front

variable {ps qs : List (Pattern Slot)}

/-- A member header holds nothing barred in front of its list, whose parentheses are flat. -/
theorem exists_member_of_reads (hps : ∀ p ∈ ps, Avoids typeBarred p)
    (h : (all (ps ++ parameterList :: qs)).Reads w) :
    ∃ head list tail, w = head ++ '(' :: (list ++ ')' :: tail) ∧
      (∀ d ∈ head, d ∉ typeBarred) ∧ Flat list ∧
      (all qs).Reads tail := by
  obtain ⟨front, _, rfl, hfront, h⟩ := h.all_append
  obtain ⟨_, tail, rfl, hlist, htail⟩ := h.all_cons
  obtain ⟨b, list, hb, hf, rfl⟩ := reads_parameterList hlist
  refine ⟨front ++ b, list, tail, by simp, fun d hd => ?_, hf, htail⟩
  exact (List.mem_append.mp hd).elim ((avoids_all hps).notMem hfront d)
    (notMem_of_blank isBlank_of_mem_typeBarred hb d)

/-- A list in its parentheses, if there is one. -/
def listText : Option Text → Text
  | none => []
  | some list => '(' :: (list ++ [')'])

/-- A type header holds nothing barred in front of its list, which holds no closing parenthesis. -/
theorem exists_type_of_reads (hps : ∀ p ∈ ps, Avoids typeBarred p)
    (h : (all (ps ++ componentList :: qs)).Reads w) :
    ∃ head list tail, w = head ++ (listText list ++ tail) ∧ (∀ d ∈ head, d ∉ typeBarred) ∧
      (∀ l ∈ list, ')' ∉ l) ∧
      (all qs).Reads tail := by
  obtain ⟨front, _, rfl, hfront, h⟩ := h.all_append
  obtain ⟨_, tail, rfl, hlist, htail⟩ := h.all_cons
  rcases reads_componentList hlist with rfl | ⟨b, list, hb, hl, rfl⟩
  · exact ⟨front, none, tail, rfl, (avoids_all hps).notMem hfront, fun l hl =>
      absurd hl (by simp), htail⟩
  · refine ⟨front ++ b, some list, tail, by simp [listText], fun d hd => ?_, fun l hm =>
      Option.mem_some_iff.mp hm ▸ hl, htail⟩
    exact (List.mem_append.mp hd).elim ((avoids_all hps).notMem hfront d)
      (notMem_of_blank isBlank_of_mem_typeBarred hb d)

end Front

/-! ### What stands behind it -/

/-- The parts of a header as they are read: the text in front of its list, the list, what stands
behind it, and the last character. -/
structure Outline where
  head : Text
  list : Option Text
  body : Text
  last : Char

/-- The key words of the clauses that may stand behind the list of a header. -/
def headerWords : List Text := "throws".toList :: Java.clauseWords

/-- A text with which a header goes on behind its list: blanks, or a key word and more. Where there
is no list, the key word stands apart from what is in front of it. -/
def GoesOn (list : Option Text) (t : Text) : Prop :=
  Blank t ∨ ∃ a key b v, Blank a ∧ (list = none → a ≠ []) ∧ key ∈ headerWords ∧ (Blank b ∧ b ≠ []) ∧
    t = a ++ (key ++ (b ++ v))

namespace Outline

def text (o : Outline) : Text := o.head ++ (listText o.list ++ (o.body ++ [o.last]))

structure IsRead (o : Outline) : Prop where
  head : ∀ d ∈ o.head, d ∉ typeBarred
  list : ∀ l ∈ o.list, Rising l
  body : ∀ d ∈ o.body, d ∉ clauseEnds
  goesOn : GoesOn o.list o.body
  last : o.last ∈ clauseEnds

end Outline

theorem notBlank_clauseEnds : ∀ c ∈ clauseEnds, isBlank c = false := by decide

theorem Java.avoids_throwsClause : Avoids clauseEnds Java.throwsClause := by
  have clause :
      Avoids clauseEnds (all [mark .throws (lazyPlus (noneOf [';', '{']))] : Pattern Slot) :=
    (avoids_lazyPlus_noneOf (by decide)).mark
  exact ((avoids_blanks notBlank_clauseEnds).all_cons ((avoids_literal (by decide)).all_cons
    ((avoids_someBlanks notBlank_clauseEnds).all_cons clause))).optional

theorem Java.avoids_memberTypeParameters : Avoids typeBarred Java.memberTypeParameters :=
  ((avoids_angleGroup (by decide)).seq (avoids_blanks isBlank_of_mem_typeBarred)).mark.optional

theorem Java.goesOn_throwsClause (list : Text) (h : Java.throwsClause.Reads u) (hb : Blank b) :
    GoesOn (some list) (u ++ b) := by
  rcases h.optional with rfl | h
  · exact .inl hb
  · obtain ⟨a, _, rfl, ha', h'⟩ := h.all_cons
    obtain ⟨_, _, rfl, hword, h''⟩ := h'.all_cons
    obtain ⟨b', clause, rfl, hb', -⟩ := h''.all_cons
    obtain rfl := hword.literal
    exact .inr ⟨a, "throws".toList, b', clause ++ b, ha'.blanks, by simp, by decide,
      hb'.someBlanks, by simp⟩

theorem Java.exists_end_of_reads {ends : Text}
    (h : (all [Java.throwsClause, blanks, any (ends.map sign)]).Reads w) :
    ∃ body last, w = body ++ [last] ∧ (∀ d ∈ body, d ∉ clauseEnds) ∧
      (∀ list, GoesOn (some list) body) ∧ last ∈ ends := by
  obtain ⟨u, _, rfl, hu, h'⟩ := h.all_cons
  obtain ⟨b, _, rfl, hb, hlast⟩ := h'.all_cons
  obtain ⟨p, hp, hv⟩ := Reads.any hlast
  obtain ⟨c, hc, rfl⟩ := List.mem_map.mp hp
  refine ⟨u ++ b, c, by rw [hv.sign, List.append_assoc], fun d hd => ?_, fun list => ?_, hc⟩
  · exact (List.mem_append.mp hd).elim (Java.avoids_throwsClause.notMem hu d)
      (notMem_of_blank notBlank_clauseEnds hb.blanks d)
  · exact goesOn_throwsClause list hu hb.blanks

theorem CSharp.exists_end_of_reads (h : (all [CSharp.constraintsPart, CSharp.memberEnd]).Reads w) :
    ∃ body last, w = body ++ [last] ∧ (∀ d ∈ body, d ∉ clauseEnds) ∧ last ∈ ['{', '>', ';'] := by
  have clause : Avoids clauseEnds (all [lazyPlus (noneOf ['{', ';', '='])] : Pattern Slot) :=
    avoids_lazyPlus_noneOf (by decide)
  have constraints : Avoids clauseEnds CSharp.constraintsPart :=
    ((avoids_blanks notBlank_clauseEnds).all_cons ((avoids_literal (by decide)).all_cons
      ((avoids_someBlanks notBlank_clauseEnds).all_cons clause))).optional
  obtain ⟨u, _, rfl, hu, hend⟩ := h.all_cons
  obtain ⟨b, v, rfl, hb, hv⟩ := Reads.seq hend
  have front : ∀ d ∈ u ++ b, d ∉ clauseEnds :=
    fun d hd => (List.mem_append.mp hd).elim (constraints.notMem hu d)
    (notMem_of_blank notBlank_clauseEnds hb.blanks d)
  obtain ⟨p, hp, hv⟩ := hv.any
  simp only [List.mem_cons, List.not_mem_nil, or_false] at hp
  rcases hp with rfl | rfl | rfl
  · exact ⟨u ++ b, '{', by rw [hv.sign, List.append_assoc], front, by simp⟩
  · refine ⟨u ++ b ++ ['='], '>', by rw [hv.literal]; simp, fun d hd => ?_, by simp⟩
    rcases List.mem_append.mp hd with hd | hd
    · exact front d hd
    · rw [List.mem_singleton.mp hd]
      decide
  · exact ⟨u ++ b, ';', by rw [hv.sign, List.append_assoc], front, by simp⟩

/-! ### Whole headers -/

namespace Java

/-- The header of a member has a list that is flat. -/
theorem exists_outline_member {ps : List (Pattern Slot)} {ends : Text}
    (hps : ∀ p ∈ ps, Avoids typeBarred p) (he : ends ⊆ clauseEnds)
    (h : (all (ps ++ [parameterList, throwsClause, blanks, any (ends.map sign)])).Reads w) :
    ∃ o : Outline, o.IsRead ∧ (∃ list ∈ o.list, Flat list) ∧ w = o.text := by
  obtain ⟨head, list, tail, rfl, hhead, hlist, htail⟩ := exists_member_of_reads hps h
  obtain ⟨body, last, rfl, hbody, hgoes, hlast⟩ := exists_end_of_reads htail
  refine ⟨⟨head, some list, body, last⟩, ⟨hhead, ?_, hbody, hgoes list, he hlast⟩,
    ⟨list, rfl, hlist⟩, ?_⟩
  · exact fun l hl => Option.mem_some_iff.mp hl ▸ hlist.rising
  · simp [Outline.text, listText]

theorem exists_outline_method (h : methodPattern.Reads w) :
    ∃ o : Outline, o.IsRead ∧ (∃ list ∈ o.list, Flat list) ∧ w = o.text := by
  have front :
      ∀ p ∈ [modifierRun methodModifiers, memberTypeParameters, wordEdge,
        returnTypePart typeSigns, someBlanks, named], Avoids typeBarred p := by
    intro p hp
    simp only [List.mem_cons, List.not_mem_nil, or_false] at hp
    rcases hp with rfl | rfl | rfl | rfl | rfl | rfl
    · exact avoids_modifierRun (by decide)
    · exact avoids_memberTypeParameters
    · exact avoids_wordEdge
    · exact avoids_returnTypePart (by decide)
    · exact avoids_someBlanks isBlank_of_mem_typeBarred
    · exact avoids_named
  exact exists_outline_member front (List.Subset.refl clauseEnds) h

theorem exists_outline_constructor (h : constructorPattern.Reads w) :
    ∃ o : Outline, o.IsRead ∧ (∃ list ∈ o.list, Flat list) ∧ w = o.text := by
  have front : ∀ p ∈ [modifierRun constructorModifiers, memberTypeParameters, wordEdge, named],
      Avoids typeBarred p := by
    intro p hp
    simp only [List.mem_cons, List.not_mem_nil, or_false] at hp
    rcases hp with rfl | rfl | rfl | rfl
    · exact avoids_modifierRun (by decide)
    · exact avoids_memberTypeParameters
    · exact avoids_wordEdge
    · exact avoids_named
  have ends : ['{'] ⊆ clauseEnds := by decide
  exact exists_outline_member front ends h

/-- A clause that may be left out goes on with what follows it. -/
theorem goesOn_clauseAfter {key : Text} {slot : Slot} {list : Option Text} (hk : key ∈ clauseWords)
    (h : (clauseAfter key slot).Reads u) (hv : GoesOn list v) : GoesOn list (u ++ v) := by
  rcases h.optional with rfl | h
  · exact hv
  · obtain ⟨a, _, rfl, ha, h'⟩ := h.all_cons
    obtain ⟨_, _, rfl, hword, h''⟩ := h'.all_cons
    obtain ⟨b, clause, rfl, hb, -⟩ := h''.all_cons
    obtain rfl := hword.literal
    exact .inr ⟨a, _, b, clause ++ v, ha.someBlanks.1, fun _ => ha.someBlanks.2,
      List.mem_cons_of_mem _ hk, hb.someBlanks, by simp⟩

theorem exists_outline_type (h : typePattern.Reads w) : ∃ o : Outline, o.IsRead ∧ w = o.text := by
  have kind : Avoids typeBarred kindPattern :=
    ((avoids_literal (by decide)).alt (avoids_wordEdge.seq (avoids_oneOf (by decide)))).mark
  have front :
      ∀ p ∈ [modifierRun typeModifiers, kindPattern, someBlanks, named, typeParametersPart],
      Avoids typeBarred p := by
    intro p hp
    simp only [List.mem_cons, List.not_mem_nil, or_false] at hp
    rcases hp with rfl | rfl | rfl | rfl | rfl
    · exact avoids_modifierRun (by decide)
    · exact kind
    · exact avoids_someBlanks isBlank_of_mem_typeBarred
    · exact avoids_named
    · exact ((avoids_blanks isBlank_of_mem_typeBarred).seq
        (avoids_angleGroup (by decide))).mark.optional
  have clause {key : Text} {slot : Slot} (hk : ∀ d ∈ key, d ∉ clauseEnds) :
      Avoids clauseEnds (clauseAfter key slot) := by
    have last : Avoids clauseEnds (all [mark slot (lazyPlus (noneOf ['{', ';']))]) :=
      avoids_lazyPlus.mark
    exact ((avoids_someBlanks notBlank_clauseEnds).all_cons ((avoids_literal hk).all_cons
      ((avoids_someBlanks notBlank_clauseEnds).all_cons last))).optional
  obtain ⟨head, list, tail, rfl, hhead, hlist, htail⟩ := exists_type_of_reads front h
  obtain ⟨u₁, _, rfl, h₁, htail₁⟩ := htail.all_cons
  obtain ⟨u₂, _, rfl, h₂, htail₂⟩ := htail₁.all_cons
  obtain ⟨u₃, _, rfl, h₃, htail₃⟩ := htail₂.all_cons
  obtain ⟨b, v, rfl, hb, hv⟩ := htail₃.all_cons
  obtain rfl : v = ['{'] := Reads.sign hv
  have goes : GoesOn list (u₁ ++ (u₂ ++ (u₃ ++ b))) := goesOn_clauseAfter (by decide) h₁ <|
    goesOn_clauseAfter (by decide) h₂ <| goesOn_clauseAfter (by decide) h₃ (.inl hb.blanks)
  refine ⟨⟨head, list, u₁ ++ (u₂ ++ (u₃ ++ b)), '{'⟩,
    ⟨hhead, fun l hl => rising_of_notMem (hlist l hl), fun d hd => ?_, goes,
      (by decide : '{' ∈ clauseEnds)⟩, by simp [Outline.text]⟩
  simp only [List.mem_append] at hd
  rcases hd with hd | hd | hd | hd
  · exact (clause (by decide)).notMem h₁ d hd
  · exact (clause (by decide)).notMem h₂ d hd
  · exact (clause (by decide)).notMem h₃ d hd
  · exact notMem_of_blank notBlank_clauseEnds hb.blanks d hd

end Java

/-- A method header is read up to its list, over a flat list, and on to its last character. -/
theorem exists_method_of_reads {language : Language} (h : language.methodPattern.Reads w) :
    ∃ head list body last, w = head ++ '(' :: (list ++ ')' :: (body ++ [last])) ∧
      (∀ d ∈ head, d ∉ typeBarred) ∧
      Flat list ∧ (∀ d ∈ body, d ∉ clauseEnds) ∧ last ∈ ['{', '>', ';'] := by
  cases language with
  | csharp =>
    have front :
        ∀ p ∈ [modifierRun CSharp.methodModifiers, wordEdge, returnTypePart CSharp.typeSigns,
          someBlanks, named, CSharp.typeParametersPart], Avoids typeBarred p := by
      intro p hp
      simp only [List.mem_cons, List.not_mem_nil, or_false] at hp
      rcases hp with rfl | rfl | rfl | rfl | rfl | rfl
      · exact avoids_modifierRun (by decide)
      · exact avoids_wordEdge
      · exact avoids_returnTypePart (by decide)
      · exact avoids_someBlanks isBlank_of_mem_typeBarred
      · exact avoids_named
      · exact ((avoids_blanks isBlank_of_mem_typeBarred).seq
          (avoids_angleGroup (by decide))).mark.optional
    obtain ⟨head, list, tail, rfl, hhead, hlist, htail⟩ := exists_member_of_reads front h
    obtain ⟨body, last, rfl, hbody, hlast⟩ := CSharp.exists_end_of_reads htail
    exact ⟨head, list, body, last, rfl, hhead, hlist, hbody, hlast⟩
  | java =>
    obtain ⟨⟨head, _, body, last⟩, ho, ⟨list, rfl, hlist⟩, rfl⟩ := Java.exists_outline_method h
    have ends : clauseEnds ⊆ ['{', '>', ';'] := by decide
    exact ⟨head, list, body, last, by simp [Outline.text, listText], ho.head, hlist,
      ho.body, ends ho.last⟩

/-- The header of a match between further texts is that of the match, at the place it has there. -/
theorem ofMatch_within {front back : Text} {m : Match Slot} (hm : m.ending.MarksIn t) :
    MemberHeader.ofMatch (m.within front back) =
      { MemberHeader.ofMatch m with place := m.first.within front back } := by
  have parts : (m.within front back).text? = m.text? := funext (Match.text?_within hm)
  simp only [MemberHeader.ofMatch, Match.text, parts]
  rfl

/-! ### Where no header is open -/

/-- No key word of a clause stands in a text with a blank behind it. -/
def NoHeaderWord (t : Text) : Prop :=
  ∀ key ∈ headerWords, ∀ a c b, t = a ++ (key ++ c :: b) → isBlank c = true →
    a.getLast?.any isWord = true

/-- A text in which the parentheses pair up. -/
structure Level (t : Text) : Prop where
  rising : Rising t
  count : t.count '(' = t.count ')'

/-- A barred character that stands in a header behind the end of a level text stands behind the list
of the header. -/
theorem Outline.IsRead.exists_behind_list {o : Outline} (ho : o.IsRead) (hx : Level x)
    (ha : a <:+ x) (hc : c ∈ typeBarred) (hp : c ≠ '(' ∧ c ≠ ')') (h : o.text = a ++ c :: b) :
    ∃ k, a = o.head ++ (listText o.list ++ k) ∧ o.body ++ [o.last] = k ++ c :: b := by
  rcases exists_of_append_eq h with ⟨z, hz, -⟩ | ⟨k, rfl, hk⟩
  · exact absurd hc (ho.head c (by rw [hz]; simp))
  rcases exists_of_append_eq hk with ⟨z, hz, -⟩ | ⟨k', rfl, hk'⟩
  · -- in front of a character of the list a parenthesis is open
    cases hl : o.list with
    | none => exact absurd (hl ▸ hz) (by simp [listText])
    | some list =>
      rw [hl, listText] at hz
      cases k with
      | nil => exact absurd (List.cons.inj hz).1.symm hp.1
      | cons d k =>
        obtain ⟨rfl, hz'⟩ := List.cons.inj hz
        rcases exists_of_append_eq hz' with ⟨z', hlist, -⟩ | ⟨z', -, hz''⟩
        · obtain ⟨p, hpx⟩ := ha
          have before := hx.rising p ⟨_, hpx⟩
          have inside := ho.list list hl k ⟨_, hlist.symm⟩
          have head : o.head.count '(' = 0 ∧ o.head.count ')' = 0 := by
            constructor <;> exact List.count_eq_zero.mpr fun hm => ho.head _ hm (by decide)
          have level := hx.count
          rw [← hpx] at level
          simp [List.count_append, head] at level
          omega
        · cases z' with
          | nil => exact absurd (List.cons.inj hz'').1.symm hp.2
          | cons d z' => exact absurd (List.cons.inj hz'').2 (by simp)
  · exact ⟨k', rfl, hk'⟩

/-- The text up to an end and the text behind it: the parentheses up to the end pair up, and behind
it stand blanks, or no open parenthesis and no clause of a header in front of a closing brace and
blanks. -/
structure Settles (x : Text) (s : Char) (y : Text) : Prop where
  level : Level x
  ends : s ∈ clauseEnds
  closed : Blank y ∨ ∃ u z, y = u ++ '}' :: z ∧ Level u ∧ NoHeaderWord u ∧ Blank z

theorem Settles.append_blank (h : Settles x s y) (hb : Blank b) : Settles x s (y ++ b) where
  level := h.level
  ends := h.ends
  closed := h.closed.imp (·.append hb) fun ⟨u, z, hy, hu, hw, hz⟩ =>
    ⟨u, z ++ b, by simp [hy], hu, hw, hz.append hb⟩

/-- A header that begins in front of such an end has it neither in its list nor behind it. -/
theorem Settles.not_prefix_over (h : Settles x s y) (hy : y ≠ []) {o : Outline} (ho : o.IsRead)
    (ha : a <:+ x) :
    ¬a ++ s :: y <+: o.text := by
  rintro ⟨w, hw⟩
  have ends : s ∈ typeBarred ∧ s ≠ '(' ∧ s ≠ ')' := by
    rcases List.mem_pair.mp h.ends with rfl | rfl <;> decide
  rw [List.append_assoc, List.cons_append] at hw
  obtain ⟨k, -, hk⟩ := ho.exists_behind_list h.level ha ends.1 ends.2 hw.symm
  rcases exists_of_append_eq hk with ⟨z, hz, -⟩ | ⟨z, -, hz⟩
  · exact ho.body s (by rw [hz]; simp) h.ends
  · have length := congrArg List.length hz
    have some := List.length_pos_iff.mpr hy
    simp only [List.length_append, List.length_cons, List.length_nil] at length
    omega

/-- A header that begins behind such an end does not go on behind the text. -/
theorem Settles.not_prefix_behind (h : Settles x s y) {o : Outline} (ho : o.IsRead)
    (hf : o.text.head?.any isBlank = false) (ha : a <:+ y) (hn : a ≠ []) : ¬a <+: o.text := by
  have notBlank : a <+: o.text → ¬Blank a := by
    rintro ⟨v, hv⟩ hb
    obtain ⟨c, a, rfl⟩ := List.exists_cons_of_ne_nil hn
    rw [← hv, List.cons_append, List.head?_cons, Option.any_some, hb c List.mem_cons_self] at hf
    exact absurd hf (by simp)
  intro hp
  obtain ⟨p, hpa⟩ := ha
  rcases h.closed with hy | ⟨u, z, rfl, hu, hkeys, hz⟩
  · exact notBlank hp fun c hc => hy c (by rw [← hpa]; exact List.mem_append_right p hc)
  rcases exists_of_append_eq hpa with ⟨z', -, rfl⟩ | ⟨u', rfl, rfl⟩
  · exact notBlank hp hz.right
  -- the header begins in front of the brace, which stands behind its list
  obtain ⟨w, hw⟩ := hp
  rw [List.append_assoc, List.cons_append] at hw
  obtain ⟨k, rfl, hk⟩ := ho.exists_behind_list hu ⟨p, rfl⟩ (by decide) (by decide) hw.symm
  rcases exists_of_append_eq hk with ⟨v, hv, -⟩ | ⟨v, rfl, hv⟩
  · rcases ho.goesOn with hb | ⟨b, key, b', v', hb, apart, hkey, ⟨hb', hbn'⟩, hbody⟩
    · exact absurd (hb '}' (by rw [hv]; simp)) (by decide)
    · have plain : ∀ key ∈ headerWords, '}' ∉ key := by decide
      have body : (b ++ (key ++ b')) ++ v' = k ++ '}' :: v := by rw [← hv, hbody]; simp
      rcases exists_of_append_eq body with ⟨v'', hfront, -⟩ | ⟨v'', rfl, -⟩
      · have brace : '}' ∈ b ++ (key ++ b') := by rw [hfront]; simp
        simp only [List.mem_append] at brace
        rcases brace with hm | hm | hm
        · exact absurd (hb _ hm) (by decide)
        · exact plain key hkey hm
        · exact absurd (hb' _ hm) (by decide)
      · -- what stands in front of the key word is a blank or the end of the list
        obtain ⟨c, b', rfl⟩ := List.exists_cons_of_ne_nil hbn'
        have word :=
          hkeys key hkey (p ++ (o.head ++ (listText o.list ++ b))) c (b' ++ v'') (by simp)
          (hb' c List.mem_cons_self)
        have last : (listText o.list ++ b).getLast?.any isWord = false ∧
            listText o.list ++ b ≠ [] := by
          rcases List.eq_nil_or_concat b with rfl | ⟨b, d, rfl⟩
          · cases hl : o.list with
            | none => exact absurd rfl (apart hl)
            | some list =>
              have closes : listText (some list) ++ [] = ('(' :: list) ++ [')'] := by
                simp [listText]
              rw [closes, List.getLast?_concat]
              exact ⟨by decide, by simp⟩
          · have blank : isWord d = false := isWord_of_isBlank (hb d (by simp))
            simp [blank]
        rw [List.getLast?_append_of_ne_nil _ (by simp [last.2]),
          List.getLast?_append_of_ne_nil _ last.2, last.1] at word
        exact absurd word (by simp)
  · cases v with
    | nil => exact absurd ((List.cons.inj hv).1 ▸ ho.last) (by decide)
    | cons d v => exact absurd (List.cons.inj hv).2 (by simp)

/-- No header that begins in such a text goes on behind it. -/
theorem Settles.stays (h : Settles x s y) (hy : y ≠ []) {p : Pattern Slot} (hs : Shy isBlank p)
    (hp : ∀ w, p.Reads w → ∃ o : Outline, o.IsRead ∧ w = o.text) : Stays p (x ++ s :: y) := by
  intro w hw
  have first := hs.head?_any hw
  obtain ⟨o, ho, rfl⟩ := hp w hw
  refine ⟨by simp [Outline.text], fun a ha hn => ?_⟩
  obtain ⟨q, hq⟩ := ha
  rcases exists_of_append_eq hq with ⟨z, -, rfl⟩ | ⟨a, rfl, rfl⟩
  · exact h.not_prefix_behind ho first ⟨z, rfl⟩ hn
  · exact h.not_prefix_over hy ho ⟨q, rfl⟩

end Source

end SourceSurvey
