import SourceSurvey.Proofs.Attribution
import SourceSurvey.Proofs.CSharpMethod
import SourceSurvey.Proofs.JavaMethod
import SourceSurvey.Proofs.Within

/-! Where the names of reported members stand. Methods and constructors are read off the same text
by two patterns, so one name may be read twice. What tells whether it is are the texts in front of
the name that may be read as a return type. A method header that would start inside an attribute is
not read at all, and one whose return type has no word but modifiers, or has the word of a
statement, is not reported; if that goes for each of those texts, the name is that of the
constructor alone. -/

namespace SourceSurvey

open Text Pattern Source

namespace Language

def methodPattern : Language → Pattern Slot
  | .csharp => CSharp.methodPattern
  | .java => Java.methodPattern

def constructorPattern : Language → Pattern Slot
  | .csharp => CSharp.constructorPattern
  | .java => Java.constructorPattern

def constructorModifiers : Language → List Text
  | .csharp => CSharp.constructorModifiers
  | .java => Java.constructorModifiers

def typePattern : Language → Pattern Slot
  | .csharp => CSharp.typePattern
  | .java => Java.typePattern

def typeHeader? : Language → Match Slot → Option TypeHeader
  | .csharp => CSharp.typeHeader?
  | .java => Java.typeHeader?

/-- The signs that a return type may hold besides word characters. -/
def typeSigns : Language → Text
  | .csharp => CSharp.typeSigns
  | .java => Java.typeSigns

def methodMatches (language : Language) (t : Text) : List (Match Slot) :=
  language.methodPattern.matchesUnless (fun place => endsInAttribute place.before) t

def constructorMatches (language : Language) (t : Text) : List (Match Slot) :=
  language.constructorPattern.matchesUnless (fun place => endsInAttribute place.before) t

variable (language : Language) (t : Text)

theorem methodHeaders_eq :
    language.methodHeaders t = (language.methodMatches t).map MemberHeader.ofMatch := by
  cases language <;> rfl

theorem constructorHeaders_eq :
    language.constructorHeaders t = (language.constructorMatches t).map MemberHeader.ofMatch := by
  cases language <;> rfl

theorem typeHeaders_eq :
    language.typeHeaders t = (language.typePattern.allMatches t).filterMap
      language.typeHeader? := by
  cases language <;> rfl

end Language

namespace Source

/-! ### Reported members -/

namespace Site

/-- The matches of the methods that are reported. -/
def methodMatches (site : Site) : List (Match Slot) :=
  (site.language.methodMatches site.masked).filter fun m =>
    !isStatementLike site.language.methodModifiers (.ofMatch m) &&
      (site.language.typeHeaders site.masked).head?.any (·.start ≤ m.start)

/-- The matches of the constructors that are reported. -/
def constructorMatches (site : Site) : List (Match Slot) :=
  (site.language.constructorMatches site.masked).filter fun m =>
    (ownerAt? (site.language.typeHeaders site.masked) m.start).any fun h =>
      (MemberHeader.ofMatch m).name = h.name && !isCreationLike (.ofMatch m)

theorem methods_eq (site : Site) :
    site.types.flatMap (·.methods) = site.methodMatches.map fun m =>
      site.methodOf (.ofMatch m) := by
  rw [flatMap_methods, Site.methodHeaders, Language.methodHeaders_eq, List.filter_filter,
    List.filter_map, List.map_map, methodMatches]
  congr 1
  refine List.filter_congr fun m _ => ?_
  rw [Bool.and_comm]
  rfl

theorem constructors_eq (site : Site) :
    site.types.flatMap (·.constructors) = site.constructorMatches.map fun m =>
      site.constructorOf (.ofMatch m) := by
  rw [flatMap_constructors, Language.constructorHeaders_eq, List.filter_map, List.map_map,
    constructorMatches]
  rfl

end Site

/-- The offset at which the name of a match stands. -/
def nameStart? (m : Match Slot) : Option Nat := (m.span? .name).map (·.start)

/-- The text in front of the name of a match, nearest character first. -/
def nameFront (m : Match Slot) : Text := ((m.span? .name).map (·.first.before)).getD []

/-! ### Modifiers in front of a name -/

section Run

variable {mods : List Text} {run : List (Text × Text)} {x y : Text}

/-- What ends a run and begins at the start of a word is a run. -/
theorem exists_run_of_append (hr : RunOf mods run) (hw : ∀ w ∈ mods, ∀ c ∈ w, isWord c = true)
    (h : spaced run = x ++ y) (hx : ∀ c ∈ x.getLast?, isWord c = false)
    (hy : ∀ c ∈ y.head?, isWord c = true) :
    ∃ run', RunOf mods run' ∧ spaced run' = y := by
  induction run generalizing x with
  | nil => exact ⟨[], hr, (List.append_eq_nil_iff.mp h.symm).2.symm⟩
  | cons p run ih =>
    obtain ⟨w, g⟩ := p
    obtain ⟨hm, hg, -⟩ := hr _ List.mem_cons_self
    rw [spaced_cons] at h
    rcases List.append_eq_append_iff.mp h with ⟨a, rfl, h'⟩ | ⟨b, rfl, rfl⟩
    · rcases List.append_eq_append_iff.mp h' with ⟨a', rfl, h''⟩ | ⟨b, rfl, rfl⟩
      · refine ih hr.tail h'' fun c hc => hx c ?_
        have hn : a' ≠ [] := List.getLast?_isSome.mp (Option.isSome_of_mem hc)
        rwa [← List.append_assoc, List.getLast?_append_of_ne_nil _ hn]
      · cases b with
        | nil => exact ⟨run, hr.tail, rfl⟩
        | cons c b =>
          have word := hy c rfl
          rw [isWord_of_isBlank (hg c (by simp))] at word
          exact absurd word (by simp)
    · by_cases hn : x = []
      · subst hn
        exact ⟨_, hr, spaced_cons ..⟩
      · obtain ⟨c, hc⟩ := Option.isSome_iff_exists.mp (List.getLast?_isSome.mpr hn)
        have word := hw _ hm c (List.mem_append_left b (List.mem_of_getLast? hc))
        rw [hx c hc] at word
        exact absurd word (by simp)

/-- What ends a run of modifiers and begins at the start of a word has no other words. -/
theorem mem_of_mem_words (hk : KeyWords mods) (hr : RunOf mods run)
    (hw : ∀ w ∈ mods, ∀ c ∈ w, isWord c = true) (h : spaced run = x ++ y)
    (hx : ∀ c ∈ x.getLast?, isWord c = false) (hy : ∀ c ∈ y.head?, isWord c = true) :
    ∀ w ∈ words y, w ∈ mods := by
  obtain ⟨run', hr', rfl⟩ := exists_run_of_append hr hw h hx hy
  intro w hw
  rw [words_spaced (hr'.isRun hk)] at hw
  obtain ⟨p, hp, rfl⟩ := List.mem_map.mp hw
  exact (hr' p hp).1

theorem isWord_or_isBlank_of_mem_spaced (hr : RunOf mods run)
    (hw : ∀ w ∈ mods, ∀ c ∈ w, isWord c = true) : ∀ c ∈ spaced run, isWord c = true ∨
    isBlank c = true := by
  induction run with
  | nil => exact fun c hc => absurd hc List.not_mem_nil
  | cons p run ih =>
    obtain ⟨w, g⟩ := p
    obtain ⟨hm, hg, -⟩ := hr _ List.mem_cons_self
    intro c hc
    rw [spaced_cons] at hc
    rcases List.mem_append.mp hc with hc | hc
    · exact .inl (hw w hm c hc)
    rcases List.mem_append.mp hc with hc | hc
    · exact .inr (hg c hc)
    · exact ih hr.tail c hc

end Run

/-! ### Places inside attributes -/

/-- Whether a place is inside an attribute, so that no method header with a return type that begins
there is read. Such a header may start further in front: with modifiers in both languages, which
hold no sign of an attribute, and with type parameters in Java, which may hold a square bracket. -/
def isAttributed (language : Language) (before : Text) : Bool :=
  match language with
  | .csharp => endsInAttribute before
  | .java => before.head? = some '@'

theorem endsInAttribute_of_cons {c : Char} {before : Text} (hs : c ≠ '[') (hm : c ≠ '@')
    (h : endsInAttribute (c :: before) = true) : endsInAttribute before = true := by
  by_cases hc : c = '\n'
  · simp [endsInAttribute, hc] at h
  · rw [endsInAttribute, List.takeWhile_cons_of_pos (by simpa using hc), List.head?_cons,
      List.reverse_cons, List.foldl_append] at h
    simp only [Option.some.injEq, hm, decide_false, Bool.false_or, List.foldl_cons, List.foldl_nil,
      squareDepth, hs, if_false, decide_eq_true_eq] at h
    have deep : 0 < (before.takeWhile (· ≠ '\n')).reverse.foldl squareDepth 0 := by
      split at h <;> omega
    rw [endsInAttribute, decide_eq_true deep, Bool.or_true]

theorem endsInAttribute_of_append {x before : Text} (hx : ∀ c ∈ x, c ≠ '[' ∧ c ≠ '@')
    (h : endsInAttribute (x ++ before) = true) : endsInAttribute before = true := by
  induction x with
  | nil => exact h
  | cons c x ih =>
    obtain ⟨hs, hm⟩ := hx c List.mem_cons_self
    exact ih (fun d hd => hx d (List.mem_cons_of_mem c hd)) (endsInAttribute_of_cons hs hm h)

theorem plain_of_mem_spaced {mods : List Text} {run : List (Text × Text)} (hr : RunOf mods run)
    (hw : ∀ w ∈ mods, ∀ c ∈ w, isWord c = true) : ∀ c ∈ spaced run, c ≠ '[' ∧ c ≠ '@' := by
  intro c hc
  have signs : ∀ d ∈ ['[', '@'], isWord d = false ∧ isBlank d = false := by decide
  rcases isWord_or_isBlank_of_mem_spaced hr hw c hc with h | h <;>
    exact ⟨fun hd => absurd h (by simp [signs c (by simp [hd])]),
      fun hd => absurd h (by simp [signs c (by simp [hd])])⟩

/-! ### Readings of headers -/

section Readings

variable {language : Language} {here there : Cursor} {e e' : Ending Slot} {t : Text}
  {ps : List (Pattern Slot)} {m : Match Slot} {signs : Text}

/-- An ending marks a return type that stands at the place `here`, and the name behind it. -/
structure MarksType (signs : Text) (e : Ending Slot) (here : Cursor) (type gap : Text)
    (name : Span) : Prop where
  isType : isTypeText signs type = true
  isGap : Blank gap ∧ gap ≠ []
  atEdge : here.atWordEdge = true
  rest_eq : here.rest = type ++ (gap ++ name.first.rest)
  name_eq : name.first = here.beyond (type ++ gap) name.first.rest
  marksType : e.Marks .returnType ⟨here, here.beyond type (gap ++ name.first.rest)⟩
  marksName : e.Marks .name name

theorem exists_marksType
    (h : (all (wordEdge :: returnTypePart signs :: someBlanks :: named :: ps)).Leads
    here e there e') :
    ∃ type gap name, MarksType signs e here type gap name := by
  obtain ⟨_, _, hedge, h⟩ := leads_all_cons.mp h
  obtain ⟨_, _, htype, h⟩ := leads_all_cons.mp h
  obtain ⟨first, _, hgap, h⟩ := leads_all_cons.mp h
  obtain ⟨last, _, hname, -⟩ := leads_all_cons.mp h
  cases hedge with
  | wordEdge edge =>
    obtain ⟨type, ht, hr, -⟩ := leads_returnType htype
    obtain ⟨gap, hg, hn, hr', rfl⟩ := leads_someBlanks hgap
    have place := htype.eq_beyond hr
    have place' := hgap.eq_beyond hr'
    have marksName := hname.marks_mark (by decide)
    refine ⟨type, gap, ⟨first, last⟩, ht, ⟨hg, hn⟩, edge, by rw [hr, hr'], ?_, ?_, ?_⟩
    · rw [place', place, Cursor.beyond_beyond]
      rfl
    · rw [← hr', ← place]
      exact htype.marks_mark (by simp [marks, typeCharacter])
    · exact (htype.marks_iff (by simp [marks, returnTypePart, typeCharacter])).mpr marksName

/-- An ending marks a name that stands behind a run of modifiers, which begins at the place `here`.
-/
structure MarksRun (mods : List Text) (e : Ending Slot) (here : Cursor) (run : List (Text × Text))
    (name : Span) :
    Prop where
  isRun : RunOf mods run
  name_eq : name.first = here.beyond (spaced run) name.first.rest
  marksName : e.Marks .name name

theorem exists_marksRun {mods : List Text} {middle : Cursor} {m : Ending Slot}
    (hmods : (modifierRun mods).Leads here e middle m)
    (h : (all (wordEdge :: named :: ps)).Leads middle m there e') :
    ∃ run name, MarksRun mods e here run name := by
  obtain ⟨_, _, hedge, h⟩ := leads_all_cons.mp h
  obtain ⟨last, _, hname, -⟩ := leads_all_cons.mp h
  cases hedge
  obtain ⟨run, hr, hrest, rfl⟩ := leads_modifierRun hmods
  have other : Slot.name ≠ .modifiers := by decide
  have marksName : m.Marks .name ⟨middle, last⟩ := hname.marks_mark (by decide)
  exact ⟨run, ⟨middle, last⟩, hr, hmods.eq_beyond hrest,
    (Ending.marks_marked_of_ne other).mpr marksName⟩

theorem exists_leads_of_mem {p : Pattern Slot} {refuses : Cursor → Bool}
    (hm : m ∈ p.matchesUnless refuses t) :
    m.first.IsIn t ∧ ∃ there, p.Leads m.first m.ending there (.plain there) := by
  obtain ⟨place, hp, hc⟩ := exists_matchAt_of_mem hm
  obtain ⟨e, he, rfl⟩ := Option.map_eq_some_iff.mp hc
  obtain ⟨there, e', hs, hl⟩ := exists_leads_of_run he
  rw [← Option.some.inj hs] at hl
  exact ⟨Cursor.isIn_of_mem_places hp, there, hl⟩

theorem leads_memberTypeParameters (h : Java.memberTypeParameters.Leads here e there e') :
    ∃ types, here.rest = types ++ there.rest ∧ ∀ c ∈ types.getLast?, c ≠ '@' := by
  cases h with
  | right h =>
    cases h
    exact ⟨[], rfl, fun c hc => absurd hc (by simp)⟩
  | left h =>
    cases h with
    | mark h =>
      cases h with
      | seq hgroup hgap =>
        obtain ⟨inner, -, hr, rfl⟩ := leads_angleGroup hgroup
        obtain ⟨gap, hg, hr', rfl⟩ := leads_blanks hgap
        refine ⟨bracketed inner ++ gap, by rw [hr, hr', List.append_assoc], fun c hc => ?_⟩
        by_cases hn : gap = []
        · have closed : (bracketed inner ++ gap).getLast? = some '>' := by
            rw [hn, List.append_nil, bracketed, ← List.cons_append, List.getLast?_concat]
          obtain rfl := Option.mem_unique hc closed
          decide
        · rw [List.getLast?_append_of_ne_nil _ hn] at hc
          have blank := hg c (List.mem_of_getLast? hc)
          exact fun mark => absurd (mark ▸ blank) (by decide)

/-- A method has its return type and its name marked, and no header that starts in an attribute is
one of a method. -/
theorem exists_marksType_of_mem (hm : m ∈ language.methodMatches t) :
    ∃ here type gap name, here.IsIn t ∧ MarksType language.typeSigns m.ending here type gap name ∧
      isAttributed language here.before = false := by
  have outside : endsInAttribute m.first.before = false := refuses_of_mem_matchesUnless hm
  obtain ⟨hfirst, there, h⟩ := exists_leads_of_mem hm
  cases language with
  | csharp =>
    obtain ⟨place, _, hmods, h⟩ := leads_all_cons.mp h
    obtain ⟨type, gap, name, marks⟩ := exists_marksType h
    obtain ⟨run, hr, hrest, -⟩ := leads_modifierRun hmods
    have plain := plain_of_mem_spaced hr (by decide)
    refine ⟨place, type, gap, name, hmods.isIn hfirst,
      { marks with marksType := ?_, marksName := ?_ }, ?_⟩
    · exact (hmods.marks_iff (by decide)).mpr marks.marksType
    · exact (hmods.marks_iff (by decide)).mpr marks.marksName
    · rw [hmods.eq_beyond hrest, Cursor.before_beyond, isAttributed, Bool.eq_false_iff]
      intro inside
      have := endsInAttribute_of_append (fun c hc => plain c (List.mem_reverse.mp hc)) inside
      exact absurd this (by simp [outside])
  | java =>
    obtain ⟨place, _, hmods, h⟩ := leads_all_cons.mp h
    obtain ⟨place', _, htypes, h⟩ := leads_all_cons.mp h
    obtain ⟨type, gap, name, marks⟩ := exists_marksType h
    obtain ⟨run, hr, hrest, -⟩ := leads_modifierRun hmods
    obtain ⟨types, htrest, hlast⟩ := leads_memberTypeParameters htypes
    have plain := plain_of_mem_spaced hr (by decide)
    refine ⟨place', type, gap, name, htypes.isIn (hmods.isIn hfirst),
      { marks with marksType := ?_, marksName := ?_ }, ?_⟩
    · exact (hmods.marks_iff (by decide)).mpr ((htypes.marks_iff (by decide)).mpr marks.marksType)
    · exact (hmods.marks_iff (by decide)).mpr ((htypes.marks_iff (by decide)).mpr marks.marksName)
    · rw [htypes.eq_beyond htrest, hmods.eq_beyond hrest, Cursor.before_beyond,
        Cursor.before_beyond,
        isAttributed, decide_eq_false_iff_not, List.head?_append, List.head?_reverse]
      -- an at sign in front of the return type stands in front of the whole header
      cases ht : types.getLast? with
      | some c => simpa using hlast c ht
      | none =>
        rw [Option.none_or, List.head?_append, List.head?_reverse]
        cases hs : (spaced run).getLast? with
        | some c => simpa using (plain c (List.mem_of_getLast? hs)).2
        | none =>
          rw [Option.none_or]
          intro mark
          cases hb : m.first.before with
          | nil => simp [hb] at mark
          | cons c before =>
            simp only [hb, List.head?_cons, Option.some.injEq] at mark
            simp [hb, mark, endsInAttribute] at outside

theorem exists_marksRun_of_mem (hm : m ∈ language.constructorMatches t)
    (hp : (MemberHeader.ofMatch m).typeParameters = none) :
    m.first.IsIn t ∧
      ∃ run name, MarksRun language.constructorModifiers m.ending m.first run name := by
  obtain ⟨hfirst, there, h⟩ := exists_leads_of_mem hm
  refine ⟨hfirst, ?_⟩
  cases language with
  | csharp =>
    obtain ⟨place, _, hmods, h⟩ := leads_all_cons.mp h
    exact exists_marksRun hmods h
  | java =>
    obtain ⟨place, _, hmods, h⟩ := leads_all_cons.mp h
    obtain ⟨place', _, htypes, h⟩ := leads_all_cons.mp h
    cases htypes with
    | left htypes =>
      have marked := (hmods.marks_iff (by decide)).mpr (htypes.marks_mark (by decide))
      rw [MemberHeader.ofMatch, Match.text?, Match.span?_of_marks marked] at hp
      exact absurd hp (by simp)
    | right htypes =>
      cases htypes
      exact exists_marksRun hmods h

end Readings

/-! ### Names that are read twice -/

/-- Whether a character may stand in a return type. -/
def standsInType (language : Language) (c : Char) : Bool :=
  isWord c || language.typeSigns.contains c

/-- Whether the last characters in front of a name, as many as given, may be read as a return type
and the blanks behind it. -/
def endsInType (language : Language) (front : Text) (n : Nat) : Bool :=
  isTypeText language.typeSigns (trimEnd (front.take n).reverse) && !(front.drop n).head?.any isWord

/-- Whether return types of some words are those of statements, or no return types. -/
def isStatementType (methodModifiers typeWords : List Text) : Bool :=
  typeWords.any statementWords.contains || typeWords.all methodModifiers.contains

/-- Nothing in front of a name is reported as the return type of a method: what may be read as one
begins inside an attribute, or is that of a statement. -/
def NoMethodEnds (language : Language) (front : Text) : Prop :=
  ∀ n ≤ front.length, endsInType language front n = true →
    isAttributed language (front.drop n) = true ∨
      isStatementType language.methodModifiers (words (front.take n).reverse) = true

instance (language : Language) (front : Text) : Decidable (NoMethodEnds language front) :=
  inferInstanceAs (Decidable (∀ n ≤ _, _))

theorem keyWords_constructorModifiers (language : Language) :
    KeyWords language.constructorModifiers := by
  cases language <;> exact ⟨by decide, by decide, by decide⟩

theorem isWord_of_mem_constructorModifiers (language : Language) :
    ∀ w ∈ language.constructorModifiers, ∀ c ∈ w, isWord c = true := by
  cases language <;> decide

theorem mem_methodModifiers (language : Language) :
    ∀ w ∈ language.constructorModifiers, w ∈ language.methodModifiers := by
  cases language <;> decide

theorem nameStart?_of_marks {m : Match Slot} {name : Span} (h : m.ending.Marks .name name) :
    nameStart? m = some name.first.offset := by
  rw [nameStart?, Match.span?_of_marks h]
  rfl

theorem nameFront_of_marks {m : Match Slot} {name : Span} (h : m.ending.Marks .name name) :
    nameFront m = name.first.before := by
  rw [nameFront, Match.span?_of_marks h]
  rfl

theorem isTypeText_trimEnd {signs type : Text} (h : isTypeText signs type = true) :
    isTypeText signs (trimEnd type) = true := by
  cases type with
  | nil => exact absurd h (by simp [isTypeText])
  | cons c w =>
    rw [isTypeText, Bool.and_eq_true, List.all_eq_true] at h
    obtain ⟨b, split, hb, -⟩ := exists_trimEnd (c :: w)
    cases hk : trimEnd (c :: w) with
    | nil =>
      rw [hk, List.nil_append] at split
      have blank := hb c (by simp [← split])
      exact absurd blank (by simp [isBlank_of_isNameStart h.1])
    | cons d kept =>
      rw [hk, List.cons_append, List.cons.injEq] at split
      rw [isTypeText, ← split.1, h.1, Bool.true_and, List.all_eq_true]
      exact fun x hx => h.2 x (split.2 ▸ List.mem_append_left b hx)

/-- The last character in front of a place that is not blank, where such a one was read before. -/
theorem exists_head?_dropWhile {a : Text} (ha : ¬Blank a) (x : Text) :
    ∃ d ∈ a, isBlank d = false ∧ ((a.reverse ++ x).dropWhile isBlank).head? = some d := by
  obtain ⟨b, d, y, hr, hb, hd⟩ :=
    exists_eq_blank_append fun h : Blank a.reverse => ha (by simpa using h.reverse)
  refine ⟨d, List.mem_reverse.mp (by rw [hr]; simp), hd, ?_⟩
  rw [hr, List.append_assoc, dropWhile_blank_append hb, List.cons_append,
    List.dropWhile_cons_of_neg (by simp [hd]), List.head?_cons]

section Fronts

variable {language : Language} {e e' : Ending Slot} {here first : Cursor} {type gap : Text}
  {run : List (Text × Text)} {name : Span}

theorem MarksType.before {signs : Text} (hm : MarksType signs e here type gap name) :
    here.before.head?.any isWord = false := by
  obtain ⟨c, hc, hs⟩ := head?_of_isTypeText hm.isType (gap ++ name.first.rest)
  have edge := hm.atEdge
  rw [Cursor.atWordEdge, hm.rest_eq, hc, Option.any_some, isWord_of_isNameStart hs] at edge
  simpa using edge

/-- The return type of a method is one of those that may be read in front of its name. -/
theorem MarksType.exists_endsInType (hm : MarksType language.typeSigns e here type gap name) :
    ∃ n ≤ name.first.before.length, endsInType language name.first.before n = true ∧
      name.first.before.drop n = here.before ∧
        (name.first.before.take n).reverse = type ++ gap := by
  have front : name.first.before = (type ++ gap).reverse ++ here.before := by
    rw [hm.name_eq, Cursor.before_beyond]
  have taken : (name.first.before.take (type ++ gap).reverse.length).reverse = type ++ gap := by
    rw [front, List.take_left, List.reverse_reverse]
  have left : name.first.before.drop (type ++ gap).reverse.length = here.before := by
    rw [front, List.drop_left]
  refine ⟨(type ++ gap).reverse.length, by rw [front, List.length_append]; omega, ?_, left, taken⟩
  rw [endsInType, left, taken, trimEnd_append_blank hm.isGap.1, isTypeText_trimEnd hm.isType,
    hm.before]
  rfl

/-- What may be read as a return type begins a word, with a character that starts names, and holds
nothing in front of its last blanks that does not stand in return types. -/
theorem exists_type_of_endsInType {front : Text} {n : Nat}
    (h : endsInType language front n = true) :
    (∃ type gap, (front.take n).reverse = type ++ gap ∧ isTypeText language.typeSigns type = true ∧
      Blank gap) ∧ (front.drop n).head?.any isWord = false := by
  rw [endsInType, Bool.and_eq_true, Bool.not_eq_true'] at h
  obtain ⟨gap, split, hg, -⟩ := exists_trimEnd (front.take n).reverse
  exact ⟨⟨_, gap, split, h.1, hg⟩, h.2⟩

/-- Where a return type begins in front of a place, the last character there that is not blank
stands in return types. -/
theorem exists_standsInType {a y : Text} (ht : isTypeText language.typeSigns type = true)
    (hg : Blank gap) (h : type ++ gap = a ++ y) (ha : a ≠ []) (x : Text) :
    ∃ d, ((a.reverse ++ x).dropWhile isBlank).head? = some d ∧ standsInType language d = true := by
  obtain ⟨c, hhead, hstart⟩ := head?_of_isTypeText ht gap
  have notBlank : ¬Blank a := fun hb => by
    rw [h, List.head?_append_of_ne_nil _ ha] at hhead
    have blank := hb c (List.mem_of_mem_head? hhead)
    rw [isBlank_of_isNameStart hstart] at blank
    exact absurd blank (by simp)
  obtain ⟨d, hd, hblank, hlast⟩ := exists_head?_dropWhile notBlank x
  have mem : d ∈ type ++ gap := by
    rw [h]
    exact List.mem_append_left _ hd
  refine ⟨d, hlast, ?_⟩
  rcases List.mem_append.mp mem with hm | hm
  · rcases mem_of_isTypeText ht d hm with word | sign
    · rw [standsInType, word, Bool.true_or]
    · simp [standsInType, sign]
  · exact absurd (hg d hm) (by simp [hblank])

/-- In front of a constructor without type parameters that stands behind nothing of a return type,
only its own modifiers may be read as one. -/
theorem MarksRun.noMethodEnds (hc : MarksRun language.constructorModifiers e first run name)
    (hf : ∀ d ∈ (first.before.dropWhile isBlank).head?, standsInType language d = false) :
    NoMethodEnds language name.first.before := by
  intro n _ ends
  obtain ⟨⟨type, gap, read, ht, hg⟩, edge⟩ := exists_type_of_endsInType ends
  obtain ⟨c, hhead, hstart⟩ := head?_of_isTypeText ht gap
  have front : (name.first.before.drop n).reverse ++ (type ++ gap) =
      first.before.reverse ++ spaced run := by
    rw [← read, ← List.reverse_append, List.take_append_drop, hc.name_eq, Cursor.before_beyond,
      List.reverse_append, List.reverse_reverse]
  have inside (x : Text) (hx : ∀ d ∈ x.getLast?, isWord d = false)
      (hrun : spaced run = x ++ (type ++ gap)) :
      isStatementType language.methodModifiers
        (words (name.first.before.take n).reverse) = true := by
    have words := mem_of_mem_words (keyWords_constructorModifiers language) hc.isRun
      (isWord_of_mem_constructorModifiers language) hrun hx
      fun d hd => Option.mem_unique hd hhead ▸ isWord_of_isNameStart hstart
    rw [read, isStatementType, Bool.or_eq_true, List.all_eq_true]
    exact .inr fun w hw => List.contains_iff_mem.mpr (mem_methodModifiers language w (words w hw))
  refine .inr ?_
  rcases List.append_eq_append_iff.mp front with ⟨a, hfirst, hrun⟩ | ⟨b, hhere, hrun⟩
  · by_cases hn : a = []
    · exact inside [] (fun d hd => absurd hd (by simp)) (by rw [hrun, hn]; rfl)
    · -- the last character in front of the header that is not blank belongs to the return type
      have hfirst : first.before = a.reverse ++ name.first.before.drop n := by
        simpa using congrArg List.reverse hfirst
      obtain ⟨d, hlast, stands⟩ := exists_standsInType ht hg hrun hn (name.first.before.drop n)
      exact absurd (hf d (by rw [hfirst, hlast]; rfl)) (by simp [stands])
  · refine inside b (fun d hd => ?_) hrun
    have hbefore : name.first.before.drop n = b.reverse ++ first.before := by
      simpa using congrArg List.reverse hhere
    rw [hbefore, List.head?_append, List.head?_reverse, hd] at edge
    simpa using edge

end Fronts

/-- A method whose return type has the words of a statement is not reported. -/
theorem isStatementLike_of_marksType {language : Language} {m : Match Slot} {here : Cursor}
    {type gap : Text} {name : Span} (hm : MarksType language.typeSigns m.ending here type gap name)
    (hw : isStatementType language.methodModifiers (words type) = true) :
    isStatementLike language.methodModifiers (.ofMatch m) = true := by
  have text : m.text? .returnType = some type := by
    rw [Match.text?, Match.span?_of_marks hm.marksType, Option.map_some, Span.text, Span.stop,
      Span.start, hm.rest_eq]
    simp [Cursor.beyond, takeBytes_append]
  rw [isStatementType] at hw
  simp only [isStatementLike, MemberHeader.ofMatch, text, Option.map_some, words_collapse,
    Bool.or_assoc, hw, Bool.or_true]

theorem isIn_of_mem_span? {p : Pattern Slot} {refuses : Cursor → Bool} {t : Text} {m : Match Slot}
    {s : Slot} {span : Span} (hm : m ∈ p.matchesUnless refuses t) (hs : m.span? s = some span) :
    span.first.IsIn t := by
  obtain ⟨here, hh, hc⟩ := exists_matchAt_of_mem hm
  obtain ⟨begins, -⟩ := marksIn_of_matchAt hc (Cursor.isIn_of_mem_places hh)
  obtain ⟨first, hfirst, last⟩ := Option.bind_eq_some_iff.mp hs
  obtain ⟨_, -, hlast⟩ := Option.bind_eq_some_iff.mp last
  obtain rfl := Option.some.inj hlast
  obtain ⟨_, _, split, -⟩ := List.lookup_eq_some_iff.mp hfirst
  exact begins (s, first) (by rw [split]; simp)

/-- One name is not reported as that of a method and of a constructor, if nothing in front of it is
reported as the return type of a method. -/
theorem nameStart?_ne {site : Site} {m c : Match Slot} (hm : m ∈ site.methodMatches)
    (hc : c ∈ site.constructorMatches) (hf : NoMethodEnds site.language (nameFront c)) :
    nameStart? m ≠ nameStart? c := by
  obtain ⟨hm, kept⟩ := List.mem_filter.mp hm
  obtain ⟨hc, -⟩ := List.mem_filter.mp hc
  obtain ⟨here, type, gap, name, hhere, marks, outside⟩ := exists_marksType_of_mem hm
  intro same
  rw [nameStart?_of_marks marks.marksName] at same
  obtain ⟨name', found, start⟩ := Option.map_eq_some_iff.mp same.symm
  have hname : name.first.IsIn site.masked :=
    isIn_of_mem_span? hm (Match.span?_of_marks marks.marksName)
  have place : name'.first = name.first := (isIn_of_mem_span? hc found).ext hname start
  rw [nameFront, found, Option.map_some, Option.getD_some, place] at hf
  obtain ⟨n, hn, ends, front, read⟩ := marks.exists_endsInType
  rcases hf n hn ends with inside | statement
  · rw [front, outside] at inside
    exact absurd inside (by simp)
  · rw [read, words_append_blank marks.isGap.1] at statement
    rw [isStatementLike_of_marksType marks statement] at kept
    exact absurd kept (by simp)

theorem noMethodEnds_of_mem {site : Site} {c : Match Slot} (hc : c ∈ site.constructorMatches)
    (hp : (MemberHeader.ofMatch c).typeParameters = none)
    (hf : ∀ d ∈ (c.first.before.dropWhile isBlank).head?, standsInType site.language d = false) :
    NoMethodEnds site.language (nameFront c) := by
  obtain ⟨-, run, name, marks⟩ := exists_marksRun_of_mem (List.mem_filter.mp hc).1 hp
  rw [nameFront_of_marks marks.marksName]
  exact marks.noMethodEnds hf

/-- The methods and the constructors of all types are those of the matches that are reported, and
none of the names of these methods is that of a constructor with nothing in front of its name that
is reported as the return type of a method. That goes for every constructor without type parameters
that stands behind nothing of a return type. -/
theorem summarize_names (language : Language) (path t : Text) :
    let site := Site.ofText language t
    let types := (summarize language path t).types
    types.flatMap (·.methods) = (site.methodMatches.map fun m => site.methodOf (.ofMatch m)) ∧
      types.flatMap (·.constructors) =
        (site.constructorMatches.map fun c => site.constructorOf (.ofMatch c)) ∧
      ∀ c ∈ site.constructorMatches,
        ((MemberHeader.ofMatch c).typeParameters = none →
          (∀ d ∈ (c.first.before.dropWhile isBlank).head?, standsInType site.language d = false) →
          NoMethodEnds site.language (nameFront c)) ∧
        (NoMethodEnds site.language (nameFront c) →
          ∀ m ∈ site.methodMatches, nameStart? m ≠ nameStart? c) := by
  intro site types
  exact ⟨site.methods_eq, site.constructors_eq, fun c hc =>
    ⟨noMethodEnds_of_mem hc, fun hf m hm => nameStart?_ne hm hc hf⟩⟩

def boxSite : Site :=
  Site.ofText .java "class Box \x7b Box<T> copy(); @Inject private Box(T t) \x7b \x7d \x7d".toList

theorem length_boxSite : 0 < boxSite.methodMatches.length ∧
    0 < boxSite.constructorMatches.length := by
  decide +kernel

def boxMethod : Match Slot := boxSite.methodMatches.get ⟨0, length_boxSite.1⟩

def boxConstructor : Match Slot := boxSite.constructorMatches.get ⟨0, length_boxSite.2⟩

theorem nameFront_boxConstructor :
    nameFront boxConstructor = "class Box \x7b Box<T> copy(); @Inject private ".toList.reverse := by
  decide +kernel

/-- Behind a marker annotation on its line a constructor is no method. -/
theorem summarize_names_box :
    (boxMethod ∈ boxSite.methodMatches ∧ boxConstructor ∈ boxSite.constructorMatches) ∧
      NoMethodEnds .java (nameFront boxConstructor) ∧
      endsInType .java (nameFront boxConstructor) "Inject private ".toList.length = true ∧
      nameStart? boxMethod ≠ nameStart? boxConstructor := by
  have method : boxMethod ∈ boxSite.methodMatches := List.get_mem ..
  have constructor : boxConstructor ∈ boxSite.constructorMatches := List.get_mem ..
  have none : NoMethodEnds .java (nameFront boxConstructor) := by
    rw [nameFront_boxConstructor]
    decide +kernel
  exact ⟨⟨method, constructor⟩, none, by rw [nameFront_boxConstructor]; decide +kernel,
    ((summarize_names .java [] _).2.2 _ constructor).2 none _ method⟩

/-- The name of a constructor with type parameters is the name of a method too: its modifiers and
type parameters are read as a return type. -/
theorem exists_shared_name :
    let t := "class A \x7b public <T> A(T t) \x7b \x7d \x7d".toList
    let site := Site.ofText .java t
    (∃ m ∈ site.methodMatches, ∃ c ∈ site.constructorMatches, nameStart? m = nameStart? c) ∧
      (summarize .java [] t).types.map (fun d =>
        (d.methods.map fun m => (m.returnType, m.name), d.constructors.map (·.name))) =
        [([("public <T>".toList, "A".toList)], ["A".toList])] := by
  decide +kernel

end Source

end SourceSurvey
