import SourceSurvey.Proofs.WideMatch
import SourceSurvey.Proofs.LeadHeader
import SourceSurvey.Proofs.SolidPart

/-! The headers of a text and of the text with one more blank. A header of the one answers a header
of the other: what they say is the same but for the blank, what is looked for in front of them is
the same, and they stand on the same line, or one line later if the blank is a newline. So the types
of the two texts agree, as far as blanks in the texts of parameters do not count. -/

namespace SourceSurvey.Source

open Text Pattern

/-! ### In front of a header -/

section Before

variable {d : Char} {mark : Char} {ending m x : Text}

theorem attributeLines_append_blank (hb : Blank ending) (line above : Text) :
    attributeLines mark (line ++ ending) above = attributeLines mark line above := by
  induction above generalizing line with
  | nil => rw [attributeLines_nil, attributeLines_nil, trim_append_blank hb]
  | cons c above ih =>
    by_cases hc : c = '\n'
    · rw [hc, attributeLines_cons_newline, attributeLines_cons_newline, trim_append_blank hb]
    · rw [attributeLines_cons hc, attributeLines_cons hc, ← List.cons_append, ih]

/-- A blank at the end of the lines above adds no attribute. -/
theorem attributeLines_blank_cons (hd : isBlank d = true) (above : Text) :
    attributeLines mark [] (d :: above) = attributeLines mark [] above := by
  by_cases hn : d = '\n'
  · rw [hn, attributeLines_cons_newline, if_pos (show trim [] = [] from rfl)]
  · rw [attributeLines_cons hn]
    exact attributeLines_append_blank (blank_singleton hd) [] above

theorem attributeLines_widen (hd : isBlank d = true) (ending m x : Text) :
    attributeLines mark ending (m ++ '\n' :: d :: x) = attributeLines mark ending
      (m ++ '\n' :: x) := by
  induction m generalizing ending with
  | nil =>
    rw [List.nil_append, List.nil_append, attributeLines_cons_newline, attributeLines_cons_newline,
      attributeLines_blank_cons hd]
  | cons c m ih =>
    rw [List.cons_append, List.cons_append]
    by_cases hc : c = '\n'
    · rw [hc, attributeLines_cons_newline, attributeLines_cons_newline, ih]
    · rw [attributeLines_cons hc, attributeLines_cons hc, ih]

theorem attributesAbove_widen (hd : isBlank d = true) (m x : Text) :
    attributesAbove mark (m ++ '\n' :: d :: x) = attributesAbove mark (m ++ '\n' :: x) := by
  induction m with
  | nil =>
    show (attributeLines mark [] (d :: x)).reverse = (attributeLines mark [] x).reverse
    rw [attributeLines_blank_cons hd]
  | cons c m ih =>
    by_cases hc : c = '\n'
    · subst hc
      show (attributeLines mark [] (m ++ '\n' :: d :: x)).reverse =
        (attributeLines mark [] (m ++ '\n' :: x)).reverse
      rw [attributeLines_widen hd]
    · have skipped : ∀ t : Text,
          attributesAbove mark (c :: t) = attributesAbove mark t := fun t => by
        rw [attributesAbove, attributesAbove, List.dropWhile_cons_of_pos (by simpa using hc)]
      rw [List.cons_append, List.cons_append, skipped, skipped, ih]

theorem endsInAttribute_widen (m x x' : Text) :
    endsInAttribute (m ++ '\n' :: x') = endsInAttribute (m ++ '\n' :: x) := by
  rw [endsInAttribute, endsInAttribute, takeWhile_append_cons_of_neg (by simp),
    takeWhile_append_cons_of_neg (by simp)]

/-- What stands last in front of a place, behind blanks, is told by what stands behind the newline,
if anything does. -/
theorem dropWhile_widen (hd : isBlank d = true) (m x : Text) :
    (m ++ '\n' :: d :: x).dropWhile isBlank = (m ++ '\n' :: x).dropWhile isBlank ∨
      ∃ c l, (m ++ '\n' :: x).dropWhile isBlank = c :: l ++ '\n' :: x ∧
        (m ++ '\n' :: d :: x).dropWhile isBlank = c :: l ++ '\n' :: d :: x := by
  by_cases hm : Blank m
  · have narrow := dropWhile_blank_append (hm.append blank_newline) x
    have wide := dropWhile_blank_append (hm.append (blank_newline.append (blank_singleton hd))) x
    rw [List.append_assoc] at narrow wide
    exact .inl (wide.trans narrow.symm)
  · obtain ⟨b, c, l, rfl, hb, hc⟩ := exists_eq_blank_append hm
    have front : ∀ t : Text, (b ++ c :: l ++ t).dropWhile isBlank = c :: l ++ t := fun t => by
      rw [List.append_assoc, dropWhile_blank_append hb, List.cons_append,
        List.dropWhile_cons_of_neg (by simp [hc])]
    exact .inr ⟨c, l, front _, front _⟩

end Before

theorem newlinesBefore_append (v u : Text) :
    newlinesBefore (v ++ u) (byteLength v) = v.count '\n' := by
  induction v with
  | nil => simp [newlinesBefore, byteLength]
  | cons c v ih =>
    by_cases hc : c = '\n'
    · have size : ('\n' : Char).utf8Size = 1 := by decide
      rw [hc, List.cons_append, byteLength, size, Nat.add_comm, newlinesBefore_cons_newline, ih,
        List.count_cons_self]
    · rw [List.cons_append, byteLength, newlinesBefore_cons hc, Nat.add_sub_cancel_left, ih,
        List.count_cons_of_ne hc]

namespace Widening

variable {g : Widening} {here here' : Cursor} {m m' : Match Slot} {slot : Slot}

section Place

variable (h : g.Beside here here') (hn : here.rest.head?.any Text.isBlank = false)
include h hn

theorem Beside.attributesAbove_eq (mark : Char) :
    attributesAbove mark here.before = attributesAbove mark here'.before := by
  rcases h.before_eq hn with h | ⟨m, h, h'⟩
  · rw [h]
  · rw [h, h', attributesAbove_widen g.proper]

theorem Beside.endsInAttribute_eq : endsInAttribute here.before = endsInAttribute here'.before := by
  rcases h.before_eq hn with h | ⟨m, h, h'⟩
  · rw [h]
  · rw [h, h', endsInAttribute_widen]

/-- The places of one text by those of the other. -/
def move (g : Widening) (offset : Nat) : Nat :=
  if offset ≤ byteLength g.front then offset else offset + g.blank.utf8Size

/-- The lines of one text by those of the other. -/
def moveLine (g : Widening) (line : Nat) : Nat :=
  if g.front.count '\n' + 1 < line then line + [g.blank].count '\n' else line

theorem Beside.offset_eq : here'.offset = g.move here.offset := by
  cases h with
  | @ahead v u h =>
    have : byteLength v ≤ byteLength g.front := h ▸ byteLength_le_of_append v u
    exact (if_pos this).symm
  | inside => exact absurd hn (by simp [gap, Cursor.between, Text.isBlank])
  | @past v u h =>
    have newline : ('\n' : Char).utf8Size = 1 := by decide
    have behind : ¬byteLength (g.front ++ '\n' :: v) ≤ byteLength g.front := by
      simp only [byteLength_append, byteLength, newline]
      omega
    refine Eq.trans ?_ (if_neg behind).symm
    simp only [Cursor.between, byteLength_append, byteLength]
    omega

theorem Beside.lineOf_eq :
    (LineTable.ofText g.wide).lineOf here'.offset = g.moveLine
      ((LineTable.ofText g.narrow).lineOf here.offset) := by
  have line : ∀ v u : Text,
      (LineTable.ofText (v ++ u)).lineOf (byteLength v) = 1 + v.count '\n' := fun v u => by
    rw [lineOf_ofText, newlinesBefore_append]
  cases h with
  | @ahead v u h =>
    have narrow := line v (u ++ '\n' :: g.behind)
    have wide := line v (u ++ g.blank :: '\n' :: g.behind)
    rw [← List.append_assoc, h] at narrow wide
    have few : v.count '\n' ≤ g.front.count '\n' := by
      rw [← h, List.count_append]
      omega
    rw [moveLine, if_neg]
    · exact wide.trans narrow.symm
    · intro hl
      have narrow' :
        (LineTable.ofText g.narrow).lineOf (Cursor.between v (u ++ '\n' :: g.behind)).offset = _ :=
          narrow
      omega
  | inside => exact absurd hn (by simp [gap, Cursor.between, Text.isBlank])
  | @past v u h =>
    have narrow := line (g.front ++ '\n' :: v) u
    have wide := line (g.front ++ g.blank :: '\n' :: v) u
    rw [List.append_assoc, List.cons_append, h] at narrow
    rw [List.append_assoc, List.cons_append, List.cons_append, h] at wide
    have narrow' :
      (LineTable.ofText g.narrow).lineOf (Cursor.between (g.front ++ '\n' :: v) u).offset = _ :=
        narrow
    have wide' :
      (LineTable.ofText g.wide).lineOf
        (Cursor.between (g.front ++ g.blank :: '\n' :: v) u).offset = _ := wide
    have more :
        (g.front ++ g.blank :: '\n' :: v).count '\n' = (g.front ++ '\n' :: v).count
          '\n' + [g.blank].count '\n' := by
      rw [List.count_append, List.count_append, ← List.singleton_append, List.count_append]
      omega
    have below : g.front.count '\n' + 1 < 1 + (g.front ++ '\n' :: v).count '\n' := by
      rw [List.count_append, List.count_cons_self]
      omega
    rw [narrow', wide', moveLine, if_pos below, more, Nat.add_assoc]

end Place

theorem move_le_move (g : Widening) (a b : Nat) : g.move a ≤ g.move b ↔ a ≤ b := by
  have := g.blank.utf8Size_pos
  rw [move, move]
  split <;> split <;> omega

/-! ### Headers -/

/-- Member headers that answer each other. -/
structure MemberAlike (g : Widening) (h h' : MemberHeader) : Prop where
  place : g.Beside h.place h'.place
  stop : h.place.rest.head?.any Text.isBlank = false
  same : h' = { h with place := h'.place, parameters := h'.parameters }
  parameters : Widened g.blank h.parameters h'.parameters

/-- Type headers that answer each other. -/
structure TypeAlike (g : Widening) (h h' : TypeHeader) : Prop where
  place : g.Beside h.place h'.place
  stop : h.place.rest.head?.any Text.isBlank = false
  same : h' = { h with place := h'.place, components := h'.components }
  components : Option.Rel (Widened g.blank) h.components h'.components

section Parts

variable (h : g.MatchAlike m m')
include h

theorem MatchAlike.words_eq (slot : Slot) : words (m.text slot) = words (m'.text slot) :=
  (h.widened_text slot).words_eq g.proper

theorem MatchAlike.map_collapse_eq (slot : Slot) :
    (m.text? slot).map collapse = (m'.text? slot).map collapse := by
  have part := h.ending.rel_text? slot
  generalize m.text? slot = t, m'.text? slot = t' at part
  cases part with
  | none => rfl
  | some ht => exact congrArg some (ht.collapse_eq g.proper)

theorem MatchAlike.splitClause_eq (slot : Slot) :
    splitClause (m.text? slot) = splitClause (m'.text? slot) :=
  Widened.splitClause g.proper (h.ending.rel_text? slot)

theorem MatchAlike.text_eq (hs : Solid (m.text slot)) (hs' : Solid (m'.text slot)) :
    m.text slot = m'.text slot :=
  (h.widened_text slot).eq_of_solid g.proper hs hs'

theorem MatchAlike.memberAlike (hs : Solid (m.text .name) ∧ Solid (m'.text .name)) :
    g.MemberAlike (.ofMatch m) (.ofMatch m') where
  place := h.first
  stop := h.stop
  parameters := h.widened_text .parameters
  same := by
    simp only [MemberHeader.ofMatch, h.text_eq hs.1 hs.2, h.words_eq, h.map_collapse_eq,
      h.splitClause_eq]

theorem MatchAlike.rel_csharpHeader? (hs : Solid (m.text .name) ∧ Solid (m'.text .name))
    (he : Solid (m.text .ending) ∧ Solid (m'.text .ending)) :
    Option.Rel g.TypeAlike (CSharp.typeHeader? m) (CSharp.typeHeader? m') := by
  have components := h.ending.rel_text? .components
  have missing : m.text? .components = none ↔ m'.text? .components = none :=
    eq_none_iff_of_rel components
  have ended : (m.text .ending = [';'] ∧ m.text? .components = none) ↔
      (m'.text .ending = [';'] ∧ m'.text? .components = none) := by
    rw [h.text_eq he.1 he.2, missing]
  rw [CSharp.typeHeader?, CSharp.typeHeader?, h.words_eq .kind]
  by_cases hc : m'.text .ending = [';'] ∧ m'.text? .components = none
  · rw [if_pos hc, if_pos (ended.mpr hc)]
    exact .none
  · rw [if_neg hc, if_neg fun hm => hc (ended.mp hm)]
    cases (words (m'.text .kind)).head? with
    | none => exact .none
    | some word =>
      cases hk : TypeKind.ofKeyword? word with
      | none => simp only [Option.bind_eq_bind, Option.bind_some, hk]; exact .none
      | some kind =>
        simp only [Option.bind_eq_bind, Option.bind_some, hk]
        exact .some ⟨h.first, h.stop,
          by simp only [h.text_eq hs.1 hs.2, h.words_eq, h.map_collapse_eq, h.splitClause_eq],
          components⟩

theorem MatchAlike.rel_javaHeader? (hs : Solid (m.text .name) ∧ Solid (m'.text .name))
    (hk : Solid (m.text .kind) ∧ Solid (m'.text .kind)) :
    Option.Rel g.TypeAlike (Java.typeHeader? m) (Java.typeHeader? m') := by
  rw [Java.typeHeader?, Java.typeHeader?, h.text_eq hk.1 hk.2]
  cases TypeKind.ofKeyword? (m'.text .kind) with
  | none => exact .none
  | some kind =>
    exact .some ⟨h.first,
      h.stop, by simp only [h.text_eq hs.1 hs.2, h.words_eq, h.map_collapse_eq, h.splitClause_eq],
      h.ending.rel_text? .components⟩

end Parts

section Headers

variable {language : Language}
  (hg : ¬Hangs language.clauseWords language.clauseEnds g.front g.behind)
include hg

theorem forall₂_typeHeaders :
    List.Forall₂ g.TypeAlike (language.typeHeaders g.narrow) (language.typeHeaders g.wide) := by
  cases language with
  | csharp =>
    refine List.rel_filterMap ?_
      (forall₂_matchesUnless (CSharp.shy_typePattern outside_isBlank) (CSharp.agree_typePattern hg)
      (fun _ _ hm => And.intro (CSharp.marksSolid_typeName.text hm)
        (CSharp.marksSolid_ending.text hm)) fun _ _ _ _ => rfl)
    exact fun m m' hm => hm.1.rel_csharpHeader? ⟨hm.2.1.1, hm.2.2.1⟩ ⟨hm.2.1.2, hm.2.2.2⟩
  | java =>
    refine List.rel_filterMap ?_
      (forall₂_matchesUnless (Java.shy_typePattern outside_isBlank) (Java.agree_typePattern hg)
      (fun _ _ hm => And.intro (Java.marksSolid_typeName.text hm) (Java.marksSolid_kind.text hm))
        fun _ _ _ _ => rfl)
    exact fun m m' hm => hm.1.rel_javaHeader? ⟨hm.2.1.1, hm.2.2.1⟩ ⟨hm.2.1.2, hm.2.2.2⟩

omit hg in
theorem forall₂_memberHeaders {p : Pattern Slot} (hs : Shy Text.isBlank p)
    (ha : Agree g Anywhere (p.run · stopHere) (p.run · stopHere)) (hn : MarksSolid .name p) :
    List.Forall₂ g.MemberAlike (memberHeaders p g.narrow) (memberHeaders p g.wide) := by
  rw [memberHeaders, memberHeaders, List.forall₂_map_left_iff, List.forall₂_map_right_iff]
  exact (forall₂_matchesUnless hs ha (fun _ _ => hn.text) fun _ _ hb =>
      hb.endsInAttribute_eq).imp fun _ _ hm =>
    hm.1.memberAlike hm.2

theorem forall₂_methodHeaders :
    List.Forall₂ g.MemberAlike (language.methodHeaders g.narrow)
      (language.methodHeaders g.wide) := by
  cases language with
  | csharp =>
    exact forall₂_memberHeaders (CSharp.shy_methodPattern outside_isBlank)
      (CSharp.agree_methodPattern hg)
      CSharp.marksSolid_methodName
  | java =>
    exact forall₂_memberHeaders (Java.shy_methodPattern outside_isBlank)
      (Java.agree_methodPattern hg)
      Java.marksSolid_methodName

theorem forall₂_constructorHeaders :
    List.Forall₂ g.MemberAlike (language.constructorHeaders g.narrow)
      (language.constructorHeaders g.wide) := by
  cases language with
  | csharp =>
    exact forall₂_memberHeaders (CSharp.shy_constructorPattern outside_isBlank)
      CSharp.agree_constructorPattern
      CSharp.marksSolid_constructorName
  | java =>
    exact forall₂_memberHeaders (Java.shy_constructorPattern outside_isBlank)
      (Java.agree_constructorPattern hg)
      Java.marksSolid_constructorName

end Headers

/-! ### Types -/

end Widening

/-- The view that does not tell blanks in the texts of parameters, nor in those of their attributes
in C#. -/
def View.blurred (language : Language) : View :=
  { View.whole with parameter := Parameter.blurred language }

namespace Widening

variable {g : Widening} {language : Language} {a a' : MemberHeader} {b b' : TypeHeader}

/-- The same view with the lines of the wider text. -/
def view (g : Widening) (language : Language) : View :=
  { View.blurred language with line := g.moveLine }

theorem MemberAlike.isCreationLike_eq (h : g.MemberAlike a a') :
    isCreationLike a = isCreationLike a' := by
  rw [isCreationLike, isCreationLike]
  rcases h.place.before_eq h.stop with h | ⟨m, h, h'⟩
  · rw [h]
  · rw [h, h']
    rcases dropWhile_widen g.proper m g.front.reverse with h | ⟨c, l, h, h'⟩
    · rw [h]
    · have word :=
        fun t : Text => takeWhile_append_cons_of_neg (p := fun c => isAlphanumeric c || c = '_')
        (x := '\n') (by decide) (c :: l) t
      rw [h, h', wordBefore, wordBefore, word, word, List.cons_append, List.cons_append,
        List.head?_cons, List.head?_cons]

theorem MemberAlike.isStatementLike_eq (h : g.MemberAlike a a') (modifiers : List Text) :
    isStatementLike modifiers a = isStatementLike modifiers a' := by
  rw [isStatementLike, isStatementLike, h.same]

theorem MemberAlike.start_eq (h : g.MemberAlike a a') : a'.start = g.move a.start :=
  h.place.offset_eq h.stop

theorem MemberAlike.parameters_eq (h : g.MemberAlike a a') :
    (language.parseParameters a.parameters).map (Parameter.blurred language) =
      (language.parseParameters a'.parameters).map (Parameter.blurred language) :=
  map_parseParameters_widened language g.proper h.parameters

theorem MemberAlike.prototype_eq (h : g.MemberAlike a a') :
    language.prototype a = language.prototype a' := by
  have list := h.parameters.collapse_eq g.proper
  have name : a'.name = a.name := by rw [h.same]
  have modifiers : a'.modifiers = a.modifiers := by rw [h.same]
  have typeParameters : a'.typeParameters = a.typeParameters := by rw [h.same]
  have returnType : a'.returnType = a.returnType := by rw [h.same]
  have throws : a'.throws = a.throws := by rw [h.same]
  cases language with
  | csharp =>
    show CSharp.prototype a = CSharp.prototype a'
    rw [CSharp.prototype, CSharp.prototype, name, modifiers, typeParameters, returnType, list]
  | java =>
    show Java.prototype a = Java.prototype a'
    rw [Java.prototype, Java.prototype, name, modifiers, typeParameters, returnType, throws, list]

theorem MemberAlike.methodOf_eq (h : g.MemberAlike a a') :
    (g.view language).ofMethod ((Site.ofMasked language g.narrow).methodOf a) =
      (View.blurred language).ofMethod ((Site.ofMasked language g.wide).methodOf a') := by
  have attributes := h.place.attributesAbove_eq h.stop language.attributeMark
  have line := h.place.lineOf_eq h.stop
  have prototype : language.prototype a = language.prototype a' := h.prototype_eq
  simp only [View.ofMethod, Site.methodOf, view, View.blurred, View.whole, Site.ofMasked,
    Site.attributes,
    MemberHeader.start, Method.mk.injEq, h.parameters_eq, prototype, attributes, line, id]
  refine ⟨?_, ?_, ?_, ?_, trivial, ?_, trivial, trivial, trivial⟩ <;> rw [h.same]

theorem MemberAlike.constructorOf_eq (h : g.MemberAlike a a') :
    (g.view language).ofConstructor ((Site.ofMasked language g.narrow).constructorOf a) =
      (View.blurred language).ofConstructor ((Site.ofMasked language g.wide).constructorOf a') := by
  have attributes := h.place.attributesAbove_eq h.stop language.attributeMark
  have line := h.place.lineOf_eq h.stop
  have prototype : language.prototype a = language.prototype a' := h.prototype_eq
  simp only [View.ofConstructor, Site.constructorOf, view, View.blurred, View.whole, Site.ofMasked,
    Site.attributes,
    MemberHeader.start, Constructor.mk.injEq, h.parameters_eq, prototype, attributes, line, id]
  refine ⟨?_, ?_, ?_, trivial, ?_, trivial, trivial, trivial⟩ <;> rw [h.same]

theorem TypeAlike.typeOf_eq (h : g.TypeAlike b b') :
    (g.view language).ofType ((Site.ofMasked language g.narrow).typeOf b) =
      (View.blurred language).ofType ((Site.ofMasked language g.wide).typeOf b') := by
  have attributes := h.place.attributesAbove_eq h.stop language.attributeMark
  have line := h.place.lineOf_eq h.stop
  have components :
      ((b.components.map language.parseParameters).getD []).map (Parameter.blurred language) =
      ((b'.components.map language.parseParameters).getD []).map (Parameter.blurred language) := by
    have components := h.components
    generalize b.components = t, b'.components = t' at components
    cases components with
    | none => rfl
    | some ht => exact map_parseParameters_widened language g.proper ht
  simp only [View.ofType, Site.typeOf, view, View.blurred, View.whole, Site.ofMasked,
    Site.attributes, TypeHeader.start, TypeDeclaration.mk.injEq, components, attributes, line, id]
  refine ⟨?_, ?_, ?_, ?_, ?_, ?_, ?_, ?_, trivial, trivial, rfl, rfl, trivial⟩ <;> rw [h.same]

/-- The types of the two texts agree, if no word of a clause hangs in front of the newline. -/
theorem types_eq (hg : ¬Hangs language.clauseWords language.clauseEnds g.front g.behind) :
    (Site.ofMasked language g.narrow).types.map (g.view language).ofType =
      (Site.ofMasked language g.wide).types.map (View.blurred language).ofType := by
  refine Site.map_types_eq g.move_le_move ?_ ?_ ?_
  · exact (forall₂_typeHeaders hg).imp fun _ _ h => ⟨h.typeOf_eq, h.place.offset_eq h.stop⟩
  · refine (List.rel_filter (fun _ _ h => ?_) (forall₂_methodHeaders hg)).imp fun _ _ h =>
      ⟨h.methodOf_eq, h.start_eq⟩
    beta_reduce
    rw [h.isStatementLike_eq]
    rfl
  · exact (forall₂_constructorHeaders hg).imp fun _ _ h =>
      ⟨⟨h.constructorOf_eq, h.isCreationLike_eq⟩, h.start_eq⟩

end Widening

end SourceSurvey.Source
