import SourceSurvey.Proofs.Creation
import SourceSurvey.Proofs.HeaderText
import SourceSurvey.Proofs.JavaMethod

/-! Annotations of Java in front of a declaration. An annotation that is written with a single name
or with arguments holds no place at which a header could begin: inside the name there is no edge of
a word, the place behind the at sign is refused, and a header that begins in front of the arguments
would have them as its list and could not go on to its end. A qualified name without arguments is
left out, since its last part would be read as a return type. -/

namespace SourceSurvey.Source.Java

open Text Pattern

/-- An annotation as it stands in a text, with the blanks behind it. -/
structure AnnotationText where
  qualifiers : List Text
  name : Text
  /-- The text between the parentheses, behind the blanks in front of them. -/
  arguments : Option (Text × Text)
  gap : Text

/-- Arguments without parentheses, of which no square bracket stays open and in which no type
begins. -/
structure IsArguments (t : Text) : Prop where
  plain : ∀ c ∈ t, isPlain c = true
  squares : t.foldl squareDepth 0 = 0
  noType : ∀ key ∈ kindWords, ∀ b c, Blank b → b ≠ [] → isNameStart c = true →
    ¬key ++ (b ++ [c]) <:+: t

namespace AnnotationText

/-- The names with the dots between them. -/
def path (a : AnnotationText) : Text := a.qualifiers.flatMap (· ++ ['.']) ++ a.name

/-- The arguments and the blanks, in front of what follows. -/
def tail (a : AnnotationText) (rest : Text) : Text :=
  match a.arguments with
  | none => a.gap ++ rest
  | some (b, inner) => b ++ '(' :: (inner ++ ')' :: (a.gap ++ rest))

def text (a : AnnotationText) : Text := '@' :: (a.path ++ a.tail [])

/-- The parts of an annotation are what they are called. It is not named after a modifier of a type,
and its name does not end in a word of a creation. -/
structure IsWritten (a : AnnotationText) : Prop where
  qualifiers : ∀ q ∈ a.qualifiers, isIdentifier q = true
  name : isIdentifier a.name = true
  noModifier : a.name ∉ typeModifiers
  noCreation : wordBefore a.name.reverse ∉ creationWords
  arguments : ∀ p ∈ a.arguments, Blank p.1 ∧ IsArguments p.2
  single : a.arguments = none → a.qualifiers = []
  gap : Blank a.gap ∧ a.gap ≠ []

end AnnotationText

/-- A text that begins as a declaration does, or as an annotation, and with no key word of a clause.
-/
structure Declares (t : Text) : Prop where
  first : ∃ c rest, t = c :: rest ∧ (isNameStart c = true ∨ c ∈ ['<', '@'])
  word : ∀ key ∈ headerWords, ∀ c, isBlank c = true → ¬key ++ [c] <+: t

variable {a : AnnotationText} {here there : Cursor} {e e' : Ending Slot}
  {b r t u v w x y : Text} {c d : Char}

/-! ### Where a header may begin -/

/-- A member header begins at the edge of a word or with an angle bracket. -/
theorem atWordEdge_of_leads_member {words : List Text} {ps : List (Pattern Slot)}
    (h : (all (modifierRun words :: memberTypeParameters :: wordEdge :: ps)).Leads
    here e there e') :
    here.atWordEdge = true ∨ here.rest.head? = some '<' := by
  obtain ⟨_, _, hmods, h⟩ := leads_all_cons.mp h
  obtain ⟨_, _, htypes, h⟩ := leads_all_cons.mp h
  obtain ⟨_, _, hedge, -⟩ := leads_all_cons.mp h
  cases hmods with
  | mark hmods =>
    cases hmods with
    | starRound hround _ _ =>
      obtain ⟨_, _, hround, -⟩ := leads_all_cons.mp hround
      cases hround with
      | wordEdge edge => exact .inl edge
    | starDone =>
      cases htypes with
      | left htypes =>
        cases htypes with
        | mark htypes =>
          cases htypes with
          | seq hgroup _ =>
            obtain ⟨_, _, hopen, -⟩ := leads_all_cons.mp hgroup
            rw [(leads_sign hopen).1]
            exact .inr rfl
      | right htypes =>
        cases htypes
        cases hedge with
        | wordEdge edge => exact .inl edge

/-- A type header begins with a modifier or the key word of a kind and a blank, at the edge of a
word unless it begins with an at sign. -/
theorem exists_word_of_leads_type (h : typePattern.Leads here e there e') :
    ∃ word c t, isBlank c = true ∧ here.rest = word ++ c :: t ∧
      (here.atWordEdge = true ∧ word ∈ typeModifiers ++ kindWords ∨
        word = "@interface".toList) := by
  obtain ⟨_, _, hmods, h⟩ := leads_all_cons.mp h
  obtain ⟨_, _, hkind, h⟩ := leads_all_cons.mp h
  obtain ⟨_, _, hgap, -⟩ := leads_all_cons.mp h
  cases hmods with
  | mark hmods =>
    cases hmods with
    | starRound hround _ _ =>
      obtain ⟨_, _, hedge, hround⟩ := leads_all_cons.mp hround
      obtain ⟨_, _, hword, hround⟩ := leads_all_cons.mp hround
      cases hedge with
      | wordEdge edge =>
        obtain ⟨word, hm, hr, rfl⟩ := leads_oneOf hword
        obtain ⟨b, hb, hn, hr', -⟩ := leads_someBlanks hround
        obtain ⟨c, b, rfl⟩ := List.exists_cons_of_ne_nil hn
        exact ⟨word, c, _, hb c List.mem_cons_self, by rw [hr, hr', List.cons_append],
          .inl ⟨edge, List.mem_append_left _ hm⟩⟩
    | starDone =>
      obtain ⟨b, hb, hn, hr', -⟩ := leads_someBlanks hgap
      obtain ⟨c, b, rfl⟩ := List.exists_cons_of_ne_nil hn
      cases hkind with
      | mark hkind =>
        cases hkind with
        | left hword =>
          obtain ⟨hr, -⟩ := leads_literal hword
          exact ⟨_, c, _, hb c List.mem_cons_self, by rw [hr, hr', List.cons_append], .inr rfl⟩
        | right hkind =>
          cases hkind with
          | seq hedge hword =>
            cases hedge with
            | wordEdge edge =>
              obtain ⟨word, hm, hr, -⟩ := leads_oneOf hword
              exact ⟨word, c, _, hb c List.mem_cons_self, by rw [hr, hr', List.cons_append],
                .inl ⟨edge, List.mem_append_right _ hm⟩⟩

theorem exists_cons_of_leads_named (h : named.Leads here e there e') :
    ∃ c t, isNameStart c = true ∧ here.rest = c :: t := by
  cases h with
  | mark h =>
    cases h with
    | seq h _ =>
      obtain ⟨c, hc, hr, -⟩ := leads_one h
      exact ⟨c, _, hc, hr⟩

/-- In a type header the key word of a kind has a name behind it, and nothing barred in front of it.
-/
theorem exists_kind_of_leads_type (h : typePattern.Leads here e there e') :
    ∃ u key b c t, (∀ d ∈ u, d ∉ typeBarred) ∧ key ∈ kindWords ∧ (Blank b ∧ b ≠ []) ∧
      isNameStart c = true ∧
      here.rest = u ++ (key ++ (b ++ c :: t)) := by
  obtain ⟨_, _, hmods, h⟩ := leads_all_cons.mp h
  obtain ⟨_, _, hkind, h⟩ := leads_all_cons.mp h
  obtain ⟨_, _, hgap, h⟩ := leads_all_cons.mp h
  obtain ⟨_, _, hname, -⟩ := leads_all_cons.mp h
  obtain ⟨u, hr, hu⟩ := (avoids_modifierRun (by decide)) hmods
  obtain ⟨b, hb, hn, hr', -⟩ := leads_someBlanks hgap
  obtain ⟨c, t, hc, hrn⟩ := exists_cons_of_leads_named hname
  cases hkind with
  | mark hkind =>
    cases hkind with
    | left hword =>
      obtain ⟨hrk, -⟩ := leads_literal hword
      have word : "@interface".toList = ['@'] ++ "interface".toList := by decide
      refine ⟨u ++ ['@'], "interface".toList, b, c, t, fun d hd => ?_, by decide, ⟨hb, hn⟩, hc, ?_⟩
      · rcases List.mem_append.mp hd with hd | hd
        · exact hu d hd
        · rw [List.mem_singleton.mp hd]
          decide
      · rw [hr, hrk, hr', hrn, word]
        simp
    | right hkind =>
      cases hkind with
      | seq hedge hword =>
        cases hedge
        obtain ⟨key, hk, hrk, -⟩ := leads_oneOf hword
        exact ⟨u, key, b, c, t, hu, hk, ⟨hb, hn⟩, hc, by rw [hr, hrk, hr', hrn]⟩

/-! ### Places of an annotation -/

namespace AnnotationText

theorem tail_append (a : AnnotationText) (r : Text) : a.tail [] ++ r = a.tail r := by
  rw [tail, tail]
  cases a.arguments <;> simp

theorem text_append (a : AnnotationText)
    (r : Text) : a.text ++ r = '@' :: (a.path ++ a.tail r) := by
  rw [text, List.cons_append, List.append_assoc, tail_append]

/-- A place of an annotation is its start, or stands in its name or behind it. -/
theorem exists_place (h : here.IsIn a.text) :
    here.before = [] ∨
      (∃ u v, v ≠ [] ∧ a.path = u ++ v ∧ here.before = u.reverse ++ ['@'] ∧
        here.rest = v ++ a.tail []) ∨
      here.rest <:+ a.tail [] := by
  have whole : here.before.reverse ++ here.rest = '@' :: (a.path ++ a.tail []) := h.1
  rcases List.eq_nil_or_concat here.before with hb | ⟨before, d, hb⟩
  · exact .inl hb
  · rw [hb, List.concat_eq_append, List.reverse_append] at whole
    obtain ⟨rfl, behind⟩ := List.cons.inj whole
    refine .inr ?_
    rcases List.append_eq_append_iff.mp behind with ⟨v, hv, hr⟩ | ⟨z, -, hz⟩
    · rcases List.eq_nil_or_concat v with rfl | ⟨v', c, rfl⟩
      · exact .inr ⟨[], by simpa using hr⟩
      · exact .inl ⟨before.reverse, v'.concat c, by simp, hv, by simpa using hb, hr⟩
    · exact .inr ⟨z, hz.symm⟩

/-- What begins behind the name does so with a blank or a parenthesis, or stands in the arguments.
-/
theorem head?_of_suffix (h : a.IsWritten) (ht : t <:+ a.tail []) (hn : t ≠ []) :
    t.head?.any (fun c => isBlank c || c = '(') = true ∨
      ∃ b inner v, a.arguments = some (b, inner) ∧ v <:+ inner ∧ t = v ++ ')' :: a.gap := by
  have blank : ∀ {g u v : Text}, Blank g → u ≠ [] → (∃ z, g = z ++ u) →
      (u ++ v).head?.any (fun c => isBlank c || c = '(') = true := by
    rintro g u v hg hu ⟨z, rfl⟩
    obtain ⟨c, u, rfl⟩ := List.exists_cons_of_ne_nil hu
    simp [hg c (by simp)]
  obtain ⟨z, hz⟩ := ht
  rw [tail] at hz
  cases hargs : a.arguments with
  | none =>
    rw [hargs, List.append_nil] at hz
    have head := blank (v := []) h.gap.1 hn ⟨z, hz.symm⟩
    exact .inl (by simpa using head)
  | some p =>
    obtain ⟨b, inner⟩ := p
    rw [hargs, List.append_nil] at hz
    rcases List.append_eq_append_iff.mp hz with ⟨u, hb, rfl⟩ | ⟨z', -, hz'⟩
    · cases u with
      | nil => exact .inl rfl
      | cons c u => exact .inl (blank (h.arguments _ hargs).1 (List.cons_ne_nil c u) ⟨z, hb⟩)
    · cases z' with
      | nil => exact .inl (by rw [show t = _ from hz'.symm]; rfl)
      | cons d z' =>
        obtain ⟨rfl, inside⟩ := List.cons.inj hz'
        rcases List.append_eq_append_iff.mp inside with ⟨u, rfl, hu⟩ | ⟨v, hv, rfl⟩
        · cases u with
          | nil => exact .inr ⟨b, inner, [], rfl, List.nil_suffix, hu.symm⟩
          | cons d u =>
            obtain ⟨rfl, hgap⟩ := List.cons.inj hu
            have head := blank (v := []) h.gap.1 hn ⟨u, hgap⟩
            exact .inl (by simpa using head)
        · exact .inr ⟨b, inner, v, rfl, ⟨z', hv.symm⟩, rfl⟩

theorem isWord_or_dot (h : a.IsWritten) (hc : c ∈ a.path) : isWord c = true ∨ c = '.' := by
  rcases List.mem_append.mp hc with hc | hc
  · obtain ⟨q, hq, hc⟩ := List.mem_flatMap.mp hc
    rcases List.mem_append.mp hc with hc | hc
    · exact .inl (isWord_of_isIdentifier (h.qualifiers q hq) c hc)
    · exact .inr (List.mem_singleton.mp hc)
  · exact .inl (isWord_of_isIdentifier h.name c hc)

/-- Behind the name stands a blank or a parenthesis. -/
theorem exists_tail_eq (h : a.IsWritten) (r : Text) :
    ∃ d x, a.tail r = d :: x ∧ (isBlank d = true ∨ d = '(') := by
  have blank : ∀ {g : Text} (x : Text), Blank g → g ≠ [] → ∃ d y, g ++ x = d :: y ∧
      (isBlank d = true ∨ d = '(') := by
    intro g x hg hn
    obtain ⟨d, g, rfl⟩ := List.exists_cons_of_ne_nil hn
    exact ⟨d, g ++ x, rfl, .inl (hg d List.mem_cons_self)⟩
  rw [tail]
  cases hargs : a.arguments with
  | none => exact blank r h.gap.1 h.gap.2
  | some p =>
    obtain ⟨b, inner⟩ := p
    cases b with
    | nil => exact ⟨'(', _, rfl, .inr rfl⟩
    | cons d b => exact blank _ (h.arguments _ hargs).1 (List.cons_ne_nil d b)

/-- A name with an edge of a word in front of it and no dot inside is the last one. -/
theorem eq_name (h : a.IsWritten) (hp : a.path = u ++ v) (hv : '.' ∉ v)
    (hu : u.getLast?.any isWord = false) :
    v = a.name := by
  have front : a.qualifiers.flatMap (· ++ ['.']) = [] ∨
      ∃ q, a.qualifiers.flatMap (· ++ ['.']) = q ++ ['.'] := by
    rcases List.eq_nil_or_concat a.qualifiers with hq | ⟨qs, q, hq⟩
    · exact .inl (by rw [hq]; rfl)
    · exact .inr ⟨qs.flatMap (· ++ ['.']) ++ q, by rw [hq]; simp⟩
  have back : u = [] ∨ ∃ u', u = u' ++ ['.'] := by
    rcases List.eq_nil_or_concat u with rfl | ⟨u', d, rfl⟩
    · exact .inl rfl
    · rw [List.concat_eq_append, List.getLast?_concat] at hu
      have dot := (isWord_or_dot h (hp ▸ by simp : d ∈ a.path)).resolve_left (by simpa using hu)
      exact .inr ⟨u', by simp [dot]⟩
  have noDot : '.' ∉ a.name := fun hm => absurd (isWord_of_isIdentifier h.name _ hm) (by decide)
  rw [path] at hp
  rcases front with hq | ⟨q, hq⟩ <;> rcases back with rfl | ⟨u', rfl⟩ <;> rw [hq] at hp
  · exact hp.symm
  · exact absurd (show '.' ∈ a.name by rw [show a.name = _ from hp]; simp) noDot
  · exact absurd (show '.' ∈ v by rw [show v = _ from hp.symm]; simp) hv
  · have turned := congrArg List.reverse hp
    simp only [List.reverse_append, List.append_assoc, List.reverse_cons, List.singleton_append]
      at turned
    have same := (append_sign_inj (by simpa using noDot) (by simpa using hv) turned).1
    simpa using same.symm

end AnnotationText

/-- Two texts that end in front of characters which the other one does not hold are one. -/
theorem eq_of_append_cons (hd : d ∉ w) (hc : c ∉ v) (h : v ++ d :: x = w ++ c :: y) : v = w := by
  rcases List.append_eq_append_iff.mp h with ⟨z, rfl, hz⟩ | ⟨z, rfl, hz⟩
  · cases z with
    | nil => simp
    | cons e z => exact absurd (by simp [(List.cons.inj hz).1]) hd
  · cases z with
    | nil => simp
    | cons e z => exact absurd (by simp [(List.cons.inj hz).1]) hc

/-! ### No header begins in an annotation -/

/-- The words with which a type header begins. -/
def typeWords : List Text := "interface".toList :: (typeModifiers ++ kindWords)

theorem plain_of_mem_typeWords : ∀ word ∈ typeWords,
    Solid word ∧ '(' ∉ word ∧ '.' ∉ word ∧ '@' ∉ word ∧ word.head?.any isWord = true := by decide

theorem AnnotationText.IsWritten.name_notMem (h : a.IsWritten) : a.name ∉ typeWords := fun hm => by
  have creation :
    ∀ word ∈ "interface".toList :: kindWords, wordBefore word.reverse ∈ creationWords := by decide
  rcases List.mem_cons.mp hm with hm | hm
  · exact h.noCreation (creation _ (hm ▸ List.mem_cons_self))
  · rcases List.mem_append.mp hm with hm | hm
    · exact h.noModifier hm
    · exact h.noCreation (creation _ (List.mem_cons_of_mem _ hm))

/-- A word that begins a header where a part of the name of an annotation begins is the whole of
that part. -/
theorem AnnotationText.IsWritten.eq_word (h : a.IsWritten) (hv : ∀ d ∈ v, d ∈ a.path)
    (hw : w ∈ typeWords) (hc : isBlank c = true) (heq : v ++ a.tail r = w ++ c :: t) : v = w := by
  obtain ⟨d, x, hx, hd⟩ := a.exists_tail_eq h r
  have plain := plain_of_mem_typeWords w hw
  rw [hx] at heq
  refine eq_of_append_cons (fun hm => ?_) (fun hm => ?_) heq
  · rcases hd with hd | rfl
    · exact absurd hd (by simp [plain.1 d hm])
    · exact plain.2.1 hm
  · rcases a.isWord_or_dot h (hv c hm) with hw | rfl
    · exact absurd (isBlank_of_isWord hw) (by simp [hc])
    · exact absurd hc (by decide)

theorem outside_blank_or_parenthesis : Outside fun c => isBlank c || c = '(' where
  word c hc := by
    have other : c ≠ '(' := fun he => absurd (he ▸ hc) (by decide)
    simp [isBlank_of_isWord hc, other]
  angle := by decide
  at_sign := by decide

theorem matchAt_of_shy {p : Pattern Slot} {bad : Char → Bool} (hp : Shy bad p)
    (hb : here.rest.head?.any bad = true) (r : Text) : p.matchAt (here.within [] r) = none := by
  refine Option.map_eq_none_iff.mpr (hp _ _ ?_)
  cases hr : here.rest with
  | nil => exact absurd hb (by simp [hr])
  | cons c rest => simpa [hr] using hb

/-- No type begins in the arguments of an annotation. -/
theorem IsArguments.not_leads_type (h : IsArguments t) (hv : v <:+ t)
    (hr : here.rest = v ++ ')' :: x) :
    ¬typePattern.Leads here e there e' := by
  intro hl
  obtain ⟨u, key, b, c, y, hu, hk, ⟨hb, hn⟩, hc, hrest⟩ := exists_kind_of_leads_type hl
  have closing : ')' ∉ u ++ (key ++ (b ++ [c])) := by
    have plain : ∀ key ∈ kindWords, ')' ∉ key := by decide
    simp only [List.mem_append, List.mem_singleton, not_or]
    refine ⟨fun hm => hu _ hm (by decide), plain key hk, fun hm => absurd (hb _ hm) (by decide), ?_⟩
    rintro rfl
    exact absurd hc (by decide)
  have split : (u ++ (key ++ (b ++ [c]))) ++ y = v ++ ')' :: x := by rw [← hr, hrest]; simp
  rcases exists_of_append_eq split with ⟨z, hz, -⟩ | ⟨z, rfl, -⟩
  · exact closing (by rw [hz]; simp)
  · obtain ⟨front, rfl⟩ := hv
    exact h.noType key hk b c hb hn hc ⟨front ++ u, z, by simp⟩

/-- No type header begins in an annotation. -/
theorem matchAt_type_annotation (h : a.IsWritten) (hin : here.IsIn a.text)
    (hn : here.rest ≠ []) (r : Text) :
    typePattern.matchAt (here.within [] r) = none := by
  by_contra hm
  obtain ⟨m, hm⟩ := Option.ne_none_iff_exists'.mp hm
  obtain ⟨e, e', hl⟩ := reaches_of_matchAt hm
  obtain ⟨word, c, t, hc, hrest, begins⟩ := exists_word_of_leads_type hl
  rcases AnnotationText.exists_place hin with hb | ⟨u, v, hv, hpath, hb, hr⟩ | hs
  · have hr : here.rest = a.text := by simpa [hb] using hin.1
    rw [Cursor.rest_within, hr, AnnotationText.text_append] at hrest
    rcases begins with ⟨edge, -⟩ | rfl
    · have first : isWord '@' = false := by decide
      simp [Cursor.atWordEdge, hb, hr, AnnotationText.text, first] at edge
    · have word : "@interface".toList = '@' :: "interface".toList := by decide
      rw [word] at hrest
      have whole := h.eq_word (fun d hd => hd) (by decide) hc (List.cons.inj hrest).2
      have last := a.eq_name h (List.nil_append a.path).symm (by rw [whole]; decide) rfl
      exact h.name_notMem (by rw [← last, whole]; decide)
  · rw [Cursor.rest_within, hr, List.append_assoc, AnnotationText.tail_append] at hrest
    rcases begins with ⟨edge, hword⟩ | rfl
    · have hword : word ∈ typeWords := List.mem_cons_of_mem _ hword
      obtain rfl :=
        h.eq_word (fun d hd => by rw [hpath]; exact List.mem_append_right u hd) hword hc hrest
      obtain ⟨-, -, dot, -, first⟩ := plain_of_mem_typeWords v hword
      have front : u.getLast?.any isWord = false := by
        rcases List.eq_nil_or_concat u with rfl | ⟨u, d, rfl⟩
        · rfl
        · obtain ⟨f, v, rfl⟩ := List.exists_cons_of_ne_nil hv
          rw [Cursor.atWordEdge, Cursor.before_within, Cursor.rest_within, hb, hr] at edge
          simpa [show isWord f = true by simpa using first] using edge
      exact h.name_notMem (by rw [← a.eq_name h hpath dot front]; exact hword)
    · obtain ⟨d, v, rfl⟩ := List.exists_cons_of_ne_nil hv
      obtain rfl : d = '@' := (List.cons.inj hrest).1
      rcases a.isWord_or_dot h (hpath ▸ by simp : '@' ∈ a.path) with hw | hw <;>
        exact absurd hw (by decide)
  · rcases AnnotationText.head?_of_suffix h hs hn with head | ⟨b, inner, v, hargs, hv, hr⟩
    · rw [matchAt_of_shy (shy_typePattern outside_blank_or_parenthesis) head r] at hm
      exact absurd hm (by simp)
    · exact (h.arguments _ hargs).2.not_leads_type (x := a.gap ++ r) hv
        (by rw [Cursor.rest_within, hr]; simp) hl

/-- What the patterns of members have in common. -/
structure IsMemberPattern (p : Pattern Slot) : Prop where
  edge : ∀ {here e there e'}, p.Leads here e there e' → here.atWordEdge = true ∨
    here.rest.head? = some '<'
  shy : ∀ {bad}, Outside bad → Shy bad p
  outline : ∀ {w}, p.Reads w → ∃ o : Outline, o.IsRead ∧ (∃ list ∈ o.list, Flat list) ∧ w = o.text
  free : p.looksForLine = false

theorem isMemberPattern_method : IsMemberPattern methodPattern :=
  ⟨atWordEdge_of_leads_member, shy_methodPattern, exists_outline_method, by decide⟩

theorem isMemberPattern_constructor : IsMemberPattern constructorPattern :=
  ⟨atWordEdge_of_leads_member, shy_constructorPattern, exists_outline_constructor, by decide⟩

/-- No header goes on from its list to its end where a declaration begins. -/
theorem Declares.not_goesOn (h : Declares r) {gap body : Text} {list : Option Text} {last : Char}
    (hg : Blank gap)
    (hb : GoesOn list body) (hl : last ∈ clauseEnds) : body ++ last :: x ≠ gap ++ r := by
  intro heq
  obtain ⟨c, rest, rfl, hc⟩ := h.first
  have first : isBlank c = false ∧ c ∉ clauseEnds := by
    rcases hc with hc | hc
    · have word := isWord_of_isNameStart hc
      exact ⟨isBlank_of_isWord word, fun hm => by
        rcases List.mem_pair.mp hm with rfl | rfl <;> exact absurd word (by decide)⟩
    · rcases List.mem_pair.mp hc with rfl | rfl <;> decide
  rcases hb with hb | ⟨b, key, b', v, hb, -, hkey, ⟨hb', hn⟩, rfl⟩
  · obtain ⟨rfl, -⟩ := blank_append_cons_inj hb hg (notBlank_clauseEnds last hl) first.1 heq
    exact first.2 hl
  · obtain ⟨d, b', rfl⟩ := List.exists_cons_of_ne_nil hn
    have starts : ∀ key ∈ headerWords, key.head?.any isBlank = false ∧ key ≠ [] := by decide
    obtain ⟨f, key', rfl⟩ := List.exists_cons_of_ne_nil (starts key hkey).2
    have split : b ++ f :: (key' ++ d :: (b' ++ v ++ last :: x)) = gap ++ c :: rest := by
      rw [← heq]; simp
    obtain ⟨rfl, rfl⟩ :=
      blank_append_cons_inj hb hg (by simpa using (starts _ hkey).1) first.1 split
    exact h.word _ hkey d (hb' d List.mem_cons_self) ⟨b' ++ v ++ last :: x, by simp⟩

theorem flat_of_plain (h : ∀ c ∈ t, isPlain c = true) : Flat t := by
  induction t with
  | nil => exact .nil
  | cons c t ih =>
      exact .plain (h c List.mem_cons_self) (ih fun d hd => h d (List.mem_cons_of_mem c hd))

/-- No member header begins in an annotation, but perhaps where it is refused behind the at sign. -/
theorem IsMemberPattern.matchAt_annotation {p : Pattern Slot} (hp : IsMemberPattern p)
    (h : a.IsWritten) (hr : Declares r) (hin : here.IsIn a.text) (hn : here.rest ≠ []) :
    p.matchAt (here.within [] r) = none ∨ here.before.head? = some '@' := by
  by_contra hm
  rw [not_or] at hm
  obtain ⟨m, hmatch⟩ := Option.ne_none_iff_exists'.mp hm.1
  have reach := reaches_of_matchAt hmatch
  obtain ⟨w, hw, hrest⟩ := reach.exists_reads
  obtain ⟨e, e', hl⟩ := reach
  obtain ⟨⟨head, _, body, last⟩, ho, ⟨list, rfl, hf⟩, rfl⟩ := hp.outline hw
  have noList : '(' ∉ head := fun hm => ho.head _ hm (by decide)
  simp only [Outline.text, listText, List.append_assoc, List.cons_append, List.nil_append] at hrest
  rcases AnnotationText.exists_place hin with hb | ⟨u, v, hv, hpath, hb, hr'⟩ | hs
  · have start : here.rest = a.text := by simpa [hb] using hin.1
    have first : isWord '@' = false := by decide
    have edge := hp.edge hl
    simp [Cursor.atWordEdge, hb, start, AnnotationText.text, first] at edge
  · cases hargs : a.arguments with
    | none =>
      -- a single name has no edge of a word inside
      have word : ∀ c ∈ a.path, isWord c = true := by
        intro c hc
        rw [AnnotationText.path, h.single hargs] at hc
        exact isWord_of_isIdentifier h.name c hc
      obtain ⟨f, v, rfl⟩ := List.exists_cons_of_ne_nil hv
      have letter : isWord f = true := word f (by simp [hpath])
      rcases List.eq_nil_or_concat u with rfl | ⟨u, d, rfl⟩
      · exact hm.2 (by simp [hb])
      · have before : isWord d = true := word d (by simp [hpath])
        rcases hp.edge hl with edge | angle
        · simp [Cursor.atWordEdge, hb, hr', letter, before] at edge
        · obtain rfl : f = '<' := by simpa [hr'] using angle
          exact absurd letter (by decide)
    | some q =>
      obtain ⟨b, inner⟩ := q
      have args := h.arguments _ hargs
      have front : '(' ∉ v ++ b := by
        rw [List.mem_append, not_or]
        refine ⟨fun hm => ?_, fun hm => absurd (args.1 _ hm) (by decide)⟩
        rcases a.isWord_or_dot h (hpath ▸ List.mem_append_right u hm) with hw | hw <;>
          exact absurd hw (by decide)
      rw [Cursor.rest_within, hr', List.append_assoc, AnnotationText.tail_append,
        AnnotationText.tail, hargs] at hrest
      have split : (v ++ b) ++ '(' :: (inner ++ ')' :: (a.gap ++ r)) =
          head ++ '(' :: (list ++ ')' :: (body ++ last :: m.ending.last.rest)) := by
        rw [← hrest, List.append_assoc]
      have lists := (append_sign_inj front noList split).2
      exact hr.not_goesOn h.gap.1 ho.goesOn ho.last
        ((flat_of_plain args.2.plain).append_inj hf lists).2.symm
  · rcases AnnotationText.head?_of_suffix h hs hn
      with first | ⟨b, inner, v, hargs, ⟨front, hv⟩, hr'⟩
    · exact hm.1 (matchAt_of_shy (hp.shy outside_blank_or_parenthesis) first r)
    · have plain : '(' ∉ v :=
        fun hm => absurd ((h.arguments _ hargs).2.plain '(' (by rw [← hv]; simp [hm])) (by decide)
      have noClosing : ')' ∉ head := fun hm => ho.head _ hm (by decide)
      rw [Cursor.rest_within, hr', List.append_assoc, List.cons_append] at hrest
      exact append_sign_ne (by decide) plain noClosing hrest

/-! ### What declares -/

theorem Declares.of_sign (hc : c ∈ ['<', '@']) (t : Text) : Declares (c :: t) where
  first := ⟨c, t, rfl, .inr hc⟩
  word key hk d _ hp := by
    have starts : ∀ key ∈ headerWords, key ≠ [] ∧ ∀ d ∈ key.head?, d ∉ ['<', '@'] := by decide
    obtain ⟨e, key, rfl⟩ := List.exists_cons_of_ne_nil (starts key hk).1
    obtain rfl : e = c := (List.cons_prefix_cons.mp hp).1
    exact (starts _ hk).2 e rfl hc

/-- A text declares that begins with a name, unless its first word is the key word of a clause. -/
theorem Declares.of_word {w b : Text} (hn : w.head?.any isNameStart = true)
    (hb : Blank b) (hb' : b ≠ [])
    (h : ∀ v ∈ (words w).head?, v ∉ headerWords) (t : Text) : Declares (w ++ (b ++ t)) where
  first := by
    obtain ⟨c, w, rfl⟩ := List.exists_cons_of_ne_nil (l := w) (by rintro rfl; simp at hn)
    exact ⟨c, w ++ (b ++ t), rfl, .inl hn⟩
  word key hk d hd := by
    rintro ⟨rest, hp⟩
    have plain : ∀ key ∈ headerWords, Solid key ∧ key ≠ [] := by decide
    have gap : Blank [d] := fun e he => List.mem_singleton.mp he ▸ hd
    have same := congrArg words hp
    rw [List.append_assoc, words_append_gap gap (List.cons_ne_nil d []), words_append_gap hb hb',
      words_solid (plain key hk).1 (plain key hk).2] at same
    cases hw : words w with
    | nil =>
      have blank := words_eq_nil_iff.mp hw
      obtain ⟨c, w, rfl⟩ := List.exists_cons_of_ne_nil (l := w) (by rintro rfl; simp at hn)
      exact absurd (blank c List.mem_cons_self) (by simp [isBlank_of_isNameStart hn])
    | cons v vs =>
      rw [hw] at same h
      exact h v rfl ((List.cons.inj same).1 ▸ hk)

/-- The header of a method declares, unless the word of a clause stands in the place of its return
type. -/
theorem MethodText.IsWritten.declares {m : MethodText} (h : m.IsWritten)
    (hw : ∀ w ∈ (words m.returnType).head?, w ∉ headerWords) (trailing : Text) :
    Declares (m.text ++ trailing) := by
  rw [m.text_append]
  cases hm : m.modifiers with
  | cons p run =>
    obtain ⟨word, gap⟩ := p
    obtain ⟨modifier, hb, hn⟩ := h.modifiers (word, gap) (by rw [hm]; exact List.mem_cons_self)
    have starts : ∀ word ∈ methodModifiers, word.head?.any isNameStart = true ∧ Solid word ∧
      word ∉ headerWords := by decide
    obtain ⟨start, solid, other⟩ := starts word modifier
    rw [spaced_cons, List.append_assoc, List.append_assoc]
    refine .of_word start hb hn (fun v hv => ?_) _
    rw [words_solid solid (keyWords_methodModifiers.ne_nil modifier)] at hv
    exact Option.mem_some_iff.mp hv ▸ other
  | nil =>
    rw [spaced, List.flatMap_nil, List.nil_append, typeParametersText]
    cases m.typeParameters with
    | some p => exact .of_sign List.mem_cons_self _
    | none =>
      obtain ⟨c, hc, start⟩ := head?_of_isTypeText h.returnType []
      rw [List.append_nil] at hc
      exact .of_word (by rw [hc]; exact start) h.beforeName.1 h.beforeName.2 hw _

end SourceSurvey.Source.Java
