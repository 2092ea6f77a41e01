import SourceSurvey.Proofs.Annotation
import SourceSurvey.Proofs.Cut
import SourceSurvey.Proofs.Replacement
import SourceSurvey.Proofs.WordEnds

/-! Parameters of Java as they are written. In front of the type and the name stand annotations and
the word `final`, in any order. The annotations are searched for in the text and taken out of it
whole, with whatever their arguments hold, and the words of what is left are told apart. So each
part of the parameter is read as it was written. -/

namespace SourceSurvey.Source.Java

open Text Pattern

variable {a : AnnotationText} {here there : Cursor} {e e' : Ending Slot} {b r t x : Text} {c : Char}

/-! ### Annotations in a text -/

/-- The annotations that are found in a text, with single spaces. -/
def annotationsOf (t : Text) : List Text :=
  (attributePattern.allMatches t).map fun m => collapse m.whole.text

/-- The words of a text without the annotations that are found in it. -/
def plainWords (t : Text) : List Text := words (attributePattern.replaceAll [' '] t)

theorem notMem_rest (h : here.IsIn t) (hn : '@' ∉ t) : '@' ∉ here.rest := fun hm =>
  hn (h.1 ▸ List.mem_append_right _ hm)

/-- No annotation begins in front of a text without an at sign, whatever stands behind the text. -/
theorem matchAt_within (h : '@' ∉ here.rest) (hr : here.rest ≠ []) (r : Text) :
    attributePattern.matchAt (here.within [] r) = none := by
  refine Option.map_eq_none_iff.mpr ?_
  rw [attributePattern, run_all_cons]
  refine fails_sign (fun hc => h (List.mem_of_head? ?_)) _
  rwa [Cursor.rest_within, List.head?_append_of_ne_nil _ hr] at hc

theorem matchAt_eq_none (h : here.IsIn t)
    (hn : '@' ∉ t) : attributePattern.matchAt here = none := by
  refine Option.map_eq_none_iff.mpr ?_
  rw [attributePattern, run_all_cons]
  exact fails_sign (fun hc => notMem_rest h hn (List.mem_of_head? hc)) _

theorem annotationsOf_eq_nil (h : '@' ∉ t) : annotationsOf t = [] := by
  rw [annotationsOf, allMatches, matchesUnless_eq_nil fun here hh =>
    matchAt_eq_none hh h, List.map_nil]

theorem plainWords_eq_words (h : '@' ∉ t) : plainWords t = words t := by
  rw [plainWords, replaceAll_eq_self fun here hh => matchAt_eq_none hh h]

/-- A text that is found behind another one is the same text. -/
theorem map_text_within {p : Pattern Slot} (x r : Text) :
    ((p.allMatches r).map (Match.within x [])).map (fun m : Match Slot => collapse m.whole.text) =
      (p.allMatches r).map fun m => collapse m.whole.text := by
  rw [List.map_map]
  refine List.map_congr_left fun m _ => ?_
  simp [Match.within, Match.whole, Ending.within, Span.text, Span.stop, Span.start,
    Nat.add_sub_add_left]

section Skip

variable (hx : ∀ c ∈ x.getLast?, isBlank c = true) (hn : '@' ∉ x) (r : Text)
include hx hn

/-- A text without an at sign and with a blank at its end has no part in the annotations. -/
theorem annotationsOf_append : annotationsOf (x ++ r) = annotationsOf r := by
  rw [annotationsOf, allMatches_skip (by decide) (fun c hc => isWord_of_isBlank (hx c hc))
    (fun here hh hr => matchAt_within (notMem_rest hh hn) hr r), map_text_within, annotationsOf]

theorem plainWords_append : plainWords (x ++ r) = words x ++ plainWords r := by
  rw [plainWords, replaceAll_skip (by decide) (fun c hc => isWord_of_isBlank (hx c hc))
    (fun here hh hr => matchAt_within (notMem_rest hh hn) hr r),
      words_append_of_front hx, plainWords]

end Skip

/-- Whether a text is a letter or underscore with word characters and dots behind it. -/
def isDottedName : Text → Bool
  | [] => false
  | c :: w => isNameStart c && w.all fun d => isWord d || ['.'].contains d

namespace AnnotationText

/-- An annotation of a parameter has a name, perhaps with dots, and perhaps arguments whose
parentheses stand at most one deep. -/
structure IsOfParameter (a : AnnotationText) : Prop where
  path : isDottedName a.path = true
  arguments : ∀ p ∈ a.arguments, Blank p.1 ∧ isFlat p.2 = true
  gap : Blank a.gap ∧ a.gap ≠ []

/-- The arguments with their parentheses and the blanks in front of them. -/
def list (a : AnnotationText) : Text :=
  match a.arguments with
  | none => []
  | some (b, inner) => b ++ '(' :: (inner ++ [')'])

/-- The annotation without the blanks behind it. -/
def core (a : AnnotationText) : Text := '@' :: (a.path ++ a.list)

theorem text_eq (a : AnnotationText) : a.text = a.core ++ a.gap := by
  rw [text, core, tail, list]
  cases a.arguments <;> simp

namespace IsOfParameter

/-- The name is over in front of the arguments, and without them in front of the blanks. -/
theorem head?_list (h : a.IsOfParameter) (r : Text) :
    ∀ d ∈ (a.list ++ (a.gap ++ r)).head?, (isWord d || ['.'].contains d) = false := by
  have blank : ∀ {d : Char}, isBlank d = true →
      (isWord d || ['.'].contains d) = false := fun {d} hd => by
    have dot : d ≠ '.' := fun he => absurd (he ▸ hd) (by decide)
    simp [isWord_of_isBlank hd, dot]
  intro d hd
  cases hargs : a.arguments with
  | none =>
    rw [list, hargs, List.nil_append, List.head?_append_of_ne_nil _ h.gap.2] at hd
    exact blank (h.gap.1 d (List.mem_of_head? hd))
  | some p =>
    obtain ⟨b, inner⟩ := p
    rw [list, hargs, List.append_assoc] at hd
    cases b with
    | nil => rw [← Option.some.inj hd]; decide
    | cons e b =>
      rw [← Option.some.inj hd]
      exact blank ((h.arguments _ hargs).1 e List.mem_cons_self)

/-- The arguments are read whole, if there are any. Without arguments nothing that looks like them
may follow. -/
theorem prefers_list (h : a.IsOfParameter) (hr : here.rest = a.list ++ (a.gap ++ r))
    (hn : a.arguments = none → (trimStart r).head? ≠ some '(') :
    (optional (all [blanks, sign '(', flatParentheses, sign ')'])).Prefers here
      (here.beyond a.list (a.gap ++ r)) := by
  cases hargs : a.arguments with
  | none =>
    rw [list, hargs, List.nil_append] at hr
    rw [list, hargs, ← hr, Cursor.beyond_nil]
    refine prefers_optional_of_fails (fails_of_not_leads fun there e e' hl => hn hargs ?_)
    obtain ⟨_, _, hgap, hl⟩ := leads_all_cons.mp hl
    obtain ⟨_, _, opens, -⟩ := leads_all_cons.mp hl
    obtain ⟨b, hb, hr', -⟩ := leads_blanks hgap
    rw [(leads_sign opens).1] at hr'
    rw [trimStart, ← dropWhile_blank_append h.gap.1, ← hr, hr', dropWhile_blank_append hb]
    rfl
  | some p =>
    obtain ⟨b, inner⟩ := p
    obtain ⟨hb, flat⟩ := h.arguments _ hargs
    have split : here.rest = b ++ '(' :: (inner ++ ')' :: (a.gap ++ r)) := by
      rw [hr, list, hargs]
      simp
    have gap : (blanks : Pattern Slot).Prefers here _ := prefers_blanks hb split fun c hc => by
      rw [← Option.some.inj hc]
      decide
    have opens :
        (sign '(' : Pattern Slot).Prefers
          (here.beyond b ('(' :: (inner ++ ')' :: (a.gap ++ r)))) _ :=
      prefers_sign rfl
    have inside :
        flatParentheses.Prefers (here.beyond (b ++ ['(']) (inner ++ ')' :: (a.gap ++ r))) _ :=
      prefers_flatParentheses (flat_of_isFlat flat) rfl
    have closes : (all [sign ')'] : Pattern Slot).Prefers
        ((here.beyond (b ++ ['(']) (inner ++ ')' :: (a.gap ++ r))).beyond inner
          (')' :: (a.gap ++ r))) _ := prefers_sign rfl
    rw [Cursor.beyond_beyond] at opens
    have whole := (gap.all_cons (opens.all_cons (inside.all_cons closes))).optional
    have parts : b ++ ['('] ++ (inner ++ [')']) = a.list := by
      rw [list, hargs, List.append_assoc]
      rfl
    rwa [Cursor.beyond_beyond, Cursor.beyond_beyond, parts] at whole

/-- An annotation is read to its end. -/
theorem prefers_core (h : a.IsOfParameter) (hr : here.rest = a.core ++ (a.gap ++ r))
    (hn : a.arguments = none → (trimStart r).head? ≠ some '(') :
    attributePattern.Prefers here (here.beyond a.core (a.gap ++ r)) := by
  obtain ⟨c, w, path⟩ :=
    List.exists_cons_of_ne_nil (fun hp => by simpa [hp, isDottedName] using h.path : a.path ≠ [])
  obtain ⟨hc, hw⟩ : isNameStart c = true ∧ ∀ d ∈ w, (isWord d || ['.'].contains d) = true := by
    have name := h.path
    rw [path, isDottedName, Bool.and_eq_true, List.all_eq_true] at name
    exact name
  have split : here.rest = '@' :: (c :: (w ++ (a.list ++ (a.gap ++ r)))) := by
    rw [hr, core, path]
    simp
  have mark : (sign '@' : Pattern Slot).Prefers here _ := prefers_sign split
  have first :
      (one isNameStart : Pattern Slot).Prefers
      (here.beyond ['@'] (c :: (w ++ (a.list ++ (a.gap ++ r))))) _ :=
    prefers_one hc rfl
  have letters : (star (typeCharacter ['.']) : Pattern Slot).Prefers
      ((here.beyond ['@'] (c :: (w ++ (a.list ++ (a.gap ++ r))))).beyond [c]
        (w ++ (a.list ++ (a.gap ++ r)))) _ :=
    prefers_star_one hw rfl (h.head?_list r)
  have arguments : (all [optional (all [blanks, sign '(', flatParentheses, sign ')'])]).Prefers
      (here.beyond (['@'] ++ [c] ++ w) (a.list ++ (a.gap ++ r))) _ := h.prefers_list rfl hn
  have whole : ['@'] ++ [c] ++ w ++ a.list = a.core := by rw [core, path]; rfl
  rw [Cursor.beyond_beyond, whole] at arguments
  rw [Cursor.beyond_beyond] at first
  rw [Cursor.beyond_beyond, Cursor.beyond_beyond] at letters
  exact mark.all_cons (first.all_cons (letters.all_cons arguments))

/-- An annotation at the start of a text is found, and leaves nothing but blanks in the text. -/
theorem annotationsOf_text_append (h : a.IsOfParameter)
    (hn : a.arguments = none → (trimStart r).head? ≠ some '(') :
    annotationsOf (a.text ++ r) = collapse a.core :: annotationsOf r ∧
      plainWords (a.text ++ r) = plainWords r := by
  have read : attributePattern.Prefers (Cursor.ofText (a.core ++ (a.gap ++ r))) _ :=
    h.prefers_core rfl hn
  have last : ∀ c ∈ (a.core ++ a.gap).getLast?, isWord c = false := fun c hc => by
    rw [List.getLast?_append_of_ne_nil _ h.gap.2] at hc
    exact isWord_of_isBlank (h.gap.1 c (List.mem_of_getLast? hc))
  have none (here : Cursor) (_ : here.IsIn (a.core ++ a.gap)) (hr : here.rest ≠ [])
      (hs : here.rest <:+ a.gap) :
      attributePattern.matchAt (here.within [] r) = none :=
    matchAt_within (fun hm => absurd (h.gap.1 '@' (hs.subset hm)) (by decide)) hr r
  rw [text_eq, List.append_assoc]
  constructor
  · obtain ⟨m, found, first, ending⟩ :=
      allMatches_first (by decide) last (List.cons_ne_nil _ _) read none
    have whole : m.whole.text = a.core := by
      rw [Match.whole, Span.text, Span.stop, Span.start, ending, first]
      simp [Cursor.beyond, Cursor.ofText, takeBytes_append]
    rw [annotationsOf, found, List.map_cons, map_text_within, whole, annotationsOf]
  · rw [plainWords, replaceAll_first (by decide) last (List.cons_ne_nil _ _) read none,
      words_blank_append (by decide), words_blank_append h.gap.1, plainWords]

end IsOfParameter

end AnnotationText

/-! ### What stands in front of the type -/

/-- A part of a parameter in front of its type, with the blanks behind it. -/
inductive Preface
  | annotated (a : AnnotationText)
  | final (gap : Text)

namespace Preface

def text : Preface → Text
  | annotated a => a.text
  | final gap => "final".toList ++ gap

def IsWritten : Preface → Prop
  | annotated a => a.IsOfParameter
  | final gap => Blank gap ∧ gap ≠ []

/-- What is reported of an annotation. -/
def attribute? : Preface → Option Text
  | annotated a => some (collapse a.core)
  | final _ => none

def modifier? : Preface → Option Text
  | annotated _ => none
  | final _ => some "final".toList

variable {ps : List Preface}

theorem head?_trimStart_append (hr : (trimStart r).head? ≠ some '(') (ps : List Preface) :
    (trimStart (ps.flatMap text ++ r)).head? ≠ some '(' := by
  cases ps with
  | nil => exact hr
  | cons p ps =>
      cases p <;> simp [text, AnnotationText.text, trimStart, (by decide : isBlank '@' = false),
      (by decide : isBlank 'f' = false)]

/-- The annotations and the modifiers are told apart, in the order in which they were written. -/
theorem annotationsOf_flatMap_append (h : ∀ p ∈ ps, p.IsWritten)
    (hr : (trimStart r).head? ≠ some '(') :
    annotationsOf (ps.flatMap text ++ r) = ps.filterMap attribute? ++ annotationsOf r ∧
      plainWords (ps.flatMap text ++ r) = ps.filterMap modifier? ++ plainWords r := by
  induction ps with
  | nil => exact ⟨rfl, rfl⟩
  | cons p ps ih =>
    obtain ⟨hp, hs⟩ := List.forall_mem_cons.mp h
    obtain ⟨annotations, plain⟩ := ih hs
    rw [List.flatMap_cons, List.append_assoc]
    cases p with
    | annotated a =>
      obtain ⟨first, left⟩ := AnnotationText.IsOfParameter.annotationsOf_text_append hp fun _ =>
        head?_trimStart_append hr ps
      exact ⟨by rw [text, first, annotations]; rfl, by rw [text, left, plain]; rfl⟩
    | final gap =>
      obtain ⟨blank, some⟩ : Blank gap ∧ gap ≠ [] := hp
      have last : ∀ c ∈ ("final".toList ++ gap).getLast?, isBlank c = true := fun c hc => by
        rw [List.getLast?_append_of_ne_nil _ some] at hc
        exact blank c (List.mem_of_getLast? hc)
      have noMark : '@' ∉ "final".toList ++ gap := fun hm =>
        (List.mem_append.mp hm).elim (by decide) fun hm => absurd (blank '@' hm) (by decide)
      have word : words ("final".toList ++ gap) = ["final".toList] := by
        rw [words_append_blank blank]
        decide
      exact ⟨by rw [text, annotationsOf_append last noMark, annotations]; rfl,
        by rw [text, plainWords_append last noMark, plain, word]; rfl⟩

end Preface

/-! ### Parameters -/

/-- The type of a parameter without annotations, modifiers and an ellipsis. -/
structure IsTypeText (t : Text) : Prop where
  some : ¬Blank t
  noMark : '@' ∉ t
  noEllipsis : ¬ellipsis <:+: t
  noFinal : "final".toList ∉ words t

structure IsName (t : Text) : Prop where
  solid : Solid t ∧ t ≠ []
  noMark : '@' ∉ t
  noEllipsis : ¬ellipsis <:+: t

/-- The parts of a parameter as they stand in a text, with the blanks around them. -/
structure ParameterText where
  front : Text
  prefaces : List Preface
  typeText : Text
  beforeName : Text
  name : Text
  back : Text

namespace ParameterText

/-- The type and the name. -/
def declared (p : ParameterText) : Text := p.typeText ++ (p.beforeName ++ p.name)

def text (p : ParameterText) : Text :=
  p.front ++ (p.prefaces.flatMap Preface.text ++ p.declared ++ p.back)

/-- The parts of a parameter are what they are called, and only blanks stand between them. -/
structure IsWritten (p : ParameterText) : Prop where
  front : Blank p.front
  prefaces : ∀ q ∈ p.prefaces, q.IsWritten
  typeText : IsTypeText p.typeText
  /-- Behind an annotation the type cannot be taken for its arguments. -/
  typeStart : (trimStart p.typeText).head? ≠ some '('
  beforeName : Blank p.beforeName ∧ p.beforeName ≠ []
  name : IsName p.name
  noModifier : p.name ≠ "final".toList
  back : Blank p.back

end ParameterText

/-- The blanks in front of a text have no part in its annotations and words, and blanks behind a
last word are left out by trimming alone. -/
theorem annotationsOf_trim (hx : x ≠ []) (hs : Solid x) (t : Text) :
    annotationsOf (trim (t ++ x)) = annotationsOf (t ++ x) ∧
      plainWords (trim (t ++ x)) = plainWords (t ++ x) := by
  obtain ⟨front, back, split, hf, hb, -⟩ := exists_trim (t ++ x)
  have last : back = [] := hb.eq_nil (t := front ++ trim (t ++ x)) fun c hc => by
    rw [List.append_assoc, ← split, List.getLast?_append_of_ne_nil _ hx] at hc
    exact hs c (List.mem_of_getLast? hc)
  have blank : ∀ c ∈ front.getLast?, isBlank c = true := fun c hc => hf c (List.mem_of_getLast? hc)
  have noMark : '@' ∉ front := fun hm => absurd (hf '@' hm) (by decide)
  rw [last, List.append_nil] at split
  conv => enter [1, 2]; rw [split]
  conv => enter [2, 2]; rw [split]
  exact ⟨(annotationsOf_append blank noMark _).symm, by
    rw [plainWords_append blank noMark, words_eq_nil_iff.mpr hf, List.nil_append]⟩

theorem partVariadic_append {front : List Text} (h : front ≠ []) (last : Text) :
    partVariadic (front ++ [last]) = front ++ [last] := by
  obtain ⟨w, ws, rfl⟩ := List.exists_cons_of_ne_nil h
  cases ws <;> rfl

theorem moveEllipsis_eq_self {name : Text} (h : ¬ellipsis <+: name) (typeWords : List Text) :
    moveEllipsis typeWords name = (typeWords, name) := by
  rw [moveEllipsis, after?_eq_none_iff.mpr h]

/-- A parameter is read off the words beside its modifiers, once the ellipsis stands at the end of
the type. -/
theorem parseParameter_eq {front typeWords : List Text} {last name : Text}
    (hd : partVariadic ((plainWords (trim t)).filter (· ≠ "final".toList)) = front ++ [last])
    (hm : moveEllipsis front last = (typeWords, name)) (hn : typeWords ≠ []) : parseParameter t = {
      raw := trim t
      typeName :=
        some ((before? ellipsis ([' '].intercalate typeWords)).elim ([' '].intercalate typeWords)
        fun element => trimEnd element ++ ['[', ']'])
      name := some name
      variadic := (before? ellipsis ([' '].intercalate typeWords)).isSome
      modifiers := (plainWords (trim t)).filter (· = "final".toList)
      attributes := annotationsOf (trim t) } := by
  rw [plainWords] at hd
  rw [parseParameter]
  dsimp only
  rw [hd, List.getLast?_concat, List.dropLast_concat]
  dsimp only
  rw [hm]
  dsimp only
  rw [if_neg hn]
  cases before? ellipsis ([' '].intercalate typeWords) <;> rfl

namespace ParameterText.IsWritten

variable {p : ParameterText}

/-- The annotations and words of a parameter are those of what stands in front of the type, and the
words of the type and the name. -/
theorem annotationsOf_text (h : p.IsWritten) :
    annotationsOf (trim p.text) = p.prefaces.filterMap Preface.attribute? ∧
    plainWords (trim p.text) = p.prefaces.filterMap Preface.modifier? ++
      (words p.typeText ++ [p.name]) := by
  have noMark : '@' ∉ p.declared := fun hm => by
    rcases List.mem_append.mp hm with hm | hm
    · exact h.typeText.noMark hm
    · rcases List.mem_append.mp hm with hm | hm
      · exact absurd (h.beforeName.1 '@' hm) (by decide)
      · exact h.name.noMark hm
  obtain ⟨w, ws, first⟩ := List.exists_cons_of_ne_nil (mt words_eq_nil_iff.mp h.typeText.some)
  have declared : words p.declared = words p.typeText ++ [p.name] := by
    rw [ParameterText.declared, words_append_gap h.beforeName.1 h.beforeName.2,
      words_solid h.name.solid.1 h.name.solid.2]
  have start : (trimStart p.declared).head? ≠ some '(' := by
    have typeStart := h.typeStart
    rw [head?_trimStart first] at typeStart
    rwa [head?_trimStart (declared.trans (by rw [first]; rfl))]
  have body : p.prefaces.flatMap Preface.text ++ p.declared =
      p.prefaces.flatMap Preface.text ++ (p.typeText ++ p.beforeName) ++ p.name := by
        simp [ParameterText.declared]
  obtain ⟨annotations, plain⟩ := annotationsOf_trim h.name.solid.2 h.name.solid.1
    (p.prefaces.flatMap Preface.text ++ (p.typeText ++ p.beforeName))
  obtain ⟨annotations', plain'⟩ := Preface.annotationsOf_flatMap_append h.prefaces start
  rw [ParameterText.text, trim_blank_append h.front, trim_append_blank h.back, body,
    annotations, plain, ← body,
    annotations', plain', annotationsOf_eq_nil noMark, plainWords_eq_words noMark, declared,
      List.append_nil]
  exact ⟨rfl, rfl⟩

end ParameterText.IsWritten

/-- A parameter is read with the annotations, the modifiers, the type and the name with which it was
written. -/
theorem parseParameter_annotated {p : ParameterText} (h : p.IsWritten) : parseParameter p.text = {
    raw := trim p.text
    typeName := some (collapse p.typeText)
    name := some p.name
    variadic := false
    modifiers := p.prefaces.filterMap Preface.modifier?
    attributes := p.prefaces.filterMap Preface.attribute? } := by
  obtain ⟨annotations, plain⟩ := h.annotationsOf_text
  have modifiers :
      ∀ w ∈ p.prefaces.filterMap Preface.modifier?, w = "final".toList := fun w hw => by
    obtain ⟨q, -, hq⟩ := List.mem_filterMap.mp hw
    cases q with
    | annotated a => exact absurd hq (by simp [Preface.modifier?])
    | final gap => exact (Option.some.inj hq).symm
  have others : ∀ w ∈ words p.typeText ++ [p.name], w ≠ "final".toList := fun w hw => by
    rcases List.mem_append.mp hw with hw | hw
    · exact fun he => h.typeText.noFinal (he ▸ hw)
    · exact List.mem_singleton.mp hw ▸ h.noModifier
  have kept :
      (plainWords (trim p.text)).filter (· = "final".toList) = p.prefaces.filterMap
        Preface.modifier? := by
    rw [plain, List.filter_append, List.filter_eq_self.mpr fun w hw =>
      decide_eq_true (modifiers w hw),
      List.filter_eq_nil_iff.mpr fun w hw => by simpa using others w hw, List.append_nil]
  have declared :
      (plainWords (trim p.text)).filter (· ≠ "final".toList) = words p.typeText ++ [p.name] := by
    rw [plain, List.filter_append,
      List.filter_eq_nil_iff.mpr fun w hw => by simpa using modifiers w hw,
      List.filter_eq_self.mpr fun w hw => decide_eq_true (others w hw), List.nil_append]
  have some : words p.typeText ≠ [] := mt words_eq_nil_iff.mp h.typeText.some
  have noPrefix : ¬ellipsis <+: p.name := fun hp => h.name.noEllipsis hp.isInfix
  have noSuffix : before? ellipsis (collapse p.typeText) = none := before?_eq_none_iff.mpr fun hs =>
    h.typeText.noEllipsis ((infix_collapse_iff (by decide) (by decide)).mp hs.isInfix)
  rw [parseParameter_eq (declared ▸ partVariadic_append some p.name)
    (moveEllipsis_eq_self noPrefix _) some, kept, annotations, ← collapse, noSuffix]
  rfl

/-- Annotations between modifiers, with parentheses and commas, the word `final` and another
annotation in the arguments. -/
def annotatedParameter : ParameterText where
  front := " ".toList
  prefaces := [.final "\t".toList,
    .annotated ⟨[], "Size".toList, some ([], "min = (1), max  = f(2, 3)".toList), "\n".toList⟩,
    .annotated ⟨["a".toList, "b".toList], "C".toList, none, " ".toList⟩, .final " ".toList,
    .annotated ⟨[], "D".toList, some (" ".toList, "final @E(x) int".toList), " ".toList⟩]
  typeText := "Map<String,  List<int[]>>".toList
  beforeName := " ".toList
  name := "table".toList
  back := " ".toList

theorem isWritten_annotatedParameter : annotatedParameter.IsWritten where
  front := by decide
  prefaces q hq := by
    simp only [annotatedParameter, List.mem_cons, List.not_mem_nil, or_false] at hq
    rcases hq with rfl | rfl | rfl | rfl | rfl
    · exact ⟨by decide, by decide⟩
    · exact ⟨by decide, by simp [Blank, isFlat]; decide, by decide⟩
    · exact ⟨by decide, by simp, by decide⟩
    · exact ⟨by decide, by decide⟩
    · exact ⟨by decide, by simp [Blank, isFlat]; decide, by decide⟩
  typeText := ⟨by decide, by decide, by decide, by decide⟩
  typeStart := by decide
  beforeName := by decide
  name := ⟨by decide, by decide, by decide⟩
  noModifier := by decide
  back := by decide

theorem parseParameter_annotatedParameter :
    annotatedParameter.text =
        " final\t@Size(min = (1), max  = f(2, 3))\n@a.b.C final @D (final @E(x) int) Map<String,  ".toList ++
        "List<int[]>> table ".toList ∧
      annotatedParameter.IsWritten ∧
      parseParameter annotatedParameter.text = {
        raw := trim annotatedParameter.text
        typeName := some "Map<String, List<int[]>>".toList
        name := some "table".toList
        variadic := false
        modifiers := ["final".toList, "final".toList]
        attributes :=
          ["@Size(min = (1), max = f(2, 3))".toList, "@a.b.C".toList,
            "@D (final @E(x) int)".toList] } :=
  ⟨by decide +kernel, isWritten_annotatedParameter,
    (parseParameter_annotated isWritten_annotatedParameter).trans (by decide +kernel)⟩

end SourceSurvey.Source.Java
