import SourceSurvey.Proofs.Scope
import SourceSurvey.Proofs.View
import Mathlib.Data.List.TakeWhile

/-! The report of a text with one more character in front. Headers are the same but for their
places, and what is looked for in front of a header is not found in the character. Only two things
depend on the line that it stands on: the attributes above a header, if that line is one of them,
and the scope, if that line declares it. -/

namespace SourceSurvey.Source

open Text Pattern

/-- A character that stands in no word and is none of the signs that are looked for in front of a
header. -/
structure IsLead (lead : Char) : Prop where
  word : isWord lead = false
  wordBefore : (isAlphanumeric lead || lead = '_') = false
  sign : lead ∉ ['<', '@', '.', '[', ']']

theorem isLead_newline : IsLead '\n' := ⟨by decide, by decide, by decide⟩

variable {lead : Char} {h : TypeHeader} {m : Match Slot} {t : Text} {here : Cursor}

theorem IsLead.outside (hl : IsLead lead) : Outside (· = lead) where
  word c hc := decide_eq_false fun he => by
    rw [he, hl.word] at hc
    exact absurd hc (by simp)
  angle := decide_eq_false fun he => hl.sign (by simp [← he])
  at_sign := decide_eq_false fun he => hl.sign (by simp [← he])

/-- The header at the place it has behind the character. -/
def TypeHeader.behind (lead : Char) (h : TypeHeader) : TypeHeader :=
  { h with place := h.place.behind lead }

def MemberHeader.behind (lead : Char) (h : MemberHeader) : MemberHeader :=
  { h with place := h.place.behind lead }

/-! ### What is looked for in front of a header -/

section Last

variable {α : Type} {p : α → Bool}

theorem takeWhile_append_cons_of_neg {x : α} (hx : p x = false) (l l' : List α) :
    (l ++ x :: l').takeWhile p = l.takeWhile p := by
  induction l with
  | nil => simp [hx]
  | cons a l ih => rw [List.cons_append, List.takeWhile_cons, List.takeWhile_cons, ih]

theorem takeWhile_concat (l : List α) (x : α) :
    (l ++ [x]).takeWhile p = l.takeWhile p ∨ (l ++ [x]).takeWhile p = l.takeWhile p ++ [x] := by
  rw [List.takeWhile_append]
  split
  · next hl =>
    have all : l.takeWhile p = l := (List.takeWhile_prefix p).eq_of_length hl
    rw [all, List.takeWhile_cons]
    split
    · exact .inr rfl
    · exact .inl (List.append_nil l)
  · exact .inl rfl

theorem dropWhile_concat (l : List α) (x : α) :
    (l ++ [x]).dropWhile p = l.dropWhile p ∨ (l ++ [x]).dropWhile p = l.dropWhile p ++ [x] := by
  rw [List.dropWhile_append]
  split
  · next hl =>
    rw [List.isEmpty_iff.mp hl, List.dropWhile_cons]
    split
    · exact .inl rfl
    · exact .inr rfl
  · exact .inr rfl

theorem head?_concat_eq_some_iff {x y : α} (hne : x ≠ y) (l : List α) :
    (l ++ [x]).head? = some y ↔ l.head? = some y := by
  cases l with
  | nil => simp [hne]
  | cons => rfl

end Last

section Before

variable (hl : IsLead lead)
include hl

theorem squareDepth_lead (depth : Nat) : squareDepth depth lead = depth := by
  have := hl.sign
  rw [squareDepth, if_neg (fun he => this (by simp [he])), if_neg fun he => this (by simp [he])]

theorem endsInAttribute_behind (here : Cursor) :
    endsInAttribute (here.behind lead).before = endsInAttribute here.before := by
  have mark : lead ≠ '@' := fun he => hl.sign (by simp [he])
  rw [Cursor.behind, endsInAttribute, endsInAttribute]
  rcases takeWhile_concat (p := (· ≠ '\n')) here.before lead with h | h
  · rw [h]
  · rw [h, List.reverse_concat, List.foldl_cons, squareDepth_lead hl,
      decide_eq_decide.mpr (head?_concat_eq_some_iff mark _)]

theorem isCreationLike_behind (h : MemberHeader) :
    isCreationLike (h.behind lead) = isCreationLike h := by
  have dot : lead ≠ '.' := fun he => hl.sign (by simp [he])
  rw [isCreationLike, isCreationLike, MemberHeader.behind, Cursor.behind]
  rcases dropWhile_concat (p := isBlank) h.place.before lead with h | h
  · rw [h]
  · have word :=
      takeWhile_append_cons_of_neg (p := fun c => isAlphanumeric c || c = '_') hl.wordBefore
    rw [h, wordBefore, wordBefore, word, decide_eq_decide.mpr (head?_concat_eq_some_iff dot _)]

end Before

/-! ### Attributes above a header -/

/-- The first line of a text without the blanks in front of it. -/
def firstLine (t : Text) : Text := trimStart (t.takeWhile (· ≠ '\n'))

theorem head?_trimEnd_cons {c : Char} (hc : isBlank c = false) (t : Text) :
    (trimEnd (c :: t)).head? = some c := by
  rw [trimEnd]
  split <;> simp [hc]

theorem head?_trim (t : Text) : (trim t).head? = (trimStart t).head? := by
  rw [trim]
  cases ht : trimStart t with
  | nil => rfl
  | cons c rest =>
    have hc : isBlank c = false := by
      have := List.head?_dropWhile_not isBlank t
      rw [← trimStart, ht] at this
      simpa using this
    rw [head?_trimEnd_cons hc, List.head?_cons]

theorem attributeLines_nil (mark : Char) (ending : Text) :
    attributeLines mark ending [] =
      if (trim ending).head? = some mark then [trim ending] else [] := rfl

theorem attributeLines_cons_newline (mark : Char) (ending above : Text) :
    attributeLines mark ending ('\n' :: above) =
      if trim ending = [] then attributeLines mark [] above
      else if (trim ending).head? = some mark then trim ending :: attributeLines mark [] above
      else [] := rfl

theorem attributeLines_cons {c : Char} (hc : c ≠ '\n') (mark : Char) (ending above : Text) :
    attributeLines mark ending (c :: above) = attributeLines mark (c :: ending) above := by
  rw [attributeLines, if_neg hc]

/-- A newline in front of a text adds no attribute. -/
theorem attributeLines_newline (mark : Char) (ending above : Text) :
    attributeLines mark ending (above ++ ['\n']) = attributeLines mark ending above := by
  induction above generalizing ending with
  | nil =>
    have stop : attributeLines mark [] [] = [] := rfl
    rw [List.nil_append, attributeLines_cons_newline, stop, attributeLines_nil]
    split
    · next h => rw [h, if_neg (by simp)]
    · rfl
  | cons c above ih =>
    by_cases hc : c = '\n'
    · subst hc
      rw [List.cons_append, attributeLines_cons_newline, attributeLines_cons_newline, ih]
    · rw [List.cons_append, attributeLines_cons hc, attributeLines_cons hc, ih]

theorem firstLine_append_newline (a b : Text) : firstLine (a ++ '\n' :: b) = firstLine a := by
  rw [firstLine, takeWhile_append_cons_of_neg (by simp), firstLine]

theorem firstLine_of_notMem (hn : '\n' ∉ t) : firstLine t = trimStart t := by
  rw [firstLine, List.takeWhile_eq_self_iff.mpr]
  intro c hc
  simpa using fun he : c = '\n' => hn (he ▸ hc)

/-- Another character in front of a text adds no attribute, and takes none away if the first line is
no attribute. -/
theorem attributeLines_lead (hl : isBlank lead = false) {mark : Char} (hm : lead ≠ mark)
    {ending above : Text}
    (hf : (firstLine (above.reverse ++ ending)).head? ≠ some mark) (hn : '\n' ∉ ending) :
    attributeLines mark ending (above ++ [lead]) = attributeLines mark ending above := by
  have other : lead ≠ '\n' := fun he => by rw [he] at hl; exact absurd hl (by decide)
  induction above generalizing ending with
  | nil =>
    have leads : (trim (lead :: ending)).head? = some lead := by
      rw [head?_trim, trimStart, List.dropWhile_cons_of_neg (by simp [hl]), List.head?_cons]
    rw [List.reverse_nil, List.nil_append, firstLine_of_notMem hn, ← head?_trim] at hf
    rw [List.nil_append, attributeLines_cons other, attributeLines_nil, attributeLines_nil,
      if_neg hf, leads, if_neg (by simpa using hm)]
  | cons c above ih =>
    by_cases hc : c = '\n'
    · subst hc
      have above : (firstLine (above.reverse ++ [])).head? ≠ some mark := by
        rw [List.append_nil, ← firstLine_append_newline above.reverse ending]
        simpa using hf
      rw [List.cons_append, attributeLines_cons_newline, attributeLines_cons_newline,
        ih above List.not_mem_nil]
    · rw [List.cons_append, attributeLines_cons hc, attributeLines_cons hc]
      refine ih (by simpa using hf) ?_
      rw [List.mem_cons, not_or]
      exact ⟨Ne.symm hc, hn⟩

theorem attributesAbove_newline (mark : Char) (before : Text) :
    attributesAbove mark (before ++ ['\n']) = attributesAbove mark before := by
  rw [attributesAbove, attributesAbove, List.dropWhile_append]
  cases before.dropWhile (· ≠ '\n') with
  | nil => rfl
  | cons c above =>
    show (attributeLines mark [] (above ++ ['\n'])).reverse = (attributeLines mark [] above).reverse
    rw [attributeLines_newline]

theorem attributesAbove_lead (hl : isBlank lead = false) {mark : Char} (hm : lead ≠ mark)
    (h : here.IsIn t) (hf : (firstLine t).head? ≠ some mark) :
    attributesAbove mark (here.before ++ [lead]) = attributesAbove mark here.before := by
  have other : lead ≠ '\n' := fun he => by rw [he] at hl; exact absurd hl (by decide)
  rw [attributesAbove, attributesAbove, List.dropWhile_append]
  cases hd : here.before.dropWhile (· ≠ '\n') with
  | nil => simp [other]
  | cons c above =>
    have newline : c = '\n' := by
      have := List.head?_dropWhile_not (· ≠ '\n') here.before
      rw [hd] at this
      simpa using this
    -- the line of the place is cut off, so the first line of the text is the first of those above
    -- it
    have line : (firstLine (above.reverse ++ [])).head? ≠ some mark := by
      rw [List.append_nil]
      have split := List.takeWhile_append_dropWhile (p := (· ≠ '\n')) (l := here.before)
      rw [hd, newline] at split
      rw [← h.1, ← split, List.reverse_append, List.reverse_cons, List.append_assoc,
        List.append_assoc, List.singleton_append, firstLine_append_newline] at hf
      exact hf
    show (attributeLines mark [] (above ++ [lead])).reverse = (attributeLines mark [] above).reverse
    rw [attributeLines_lead hl hm line List.not_mem_nil]

/-! ### Lines -/

theorem lineOf_newline (t : Text) (offset : Nat) :
    (LineTable.ofText ('\n' :: t)).lineOf (('\n' : Char).utf8Size + offset) =
      (LineTable.ofText t).lineOf offset + 1 := by
  have size : ('\n' : Char).utf8Size = 1 := by decide
  rw [lineOf_ofText, lineOf_ofText, size, Nat.add_comm 1 offset, newlinesBefore_cons_newline]
  rfl

theorem lineOf_lead (hl : lead ≠ '\n') (t : Text) (offset : Nat) :
    (LineTable.ofText (lead :: t)).lineOf (lead.utf8Size + offset) =
      (LineTable.ofText t).lineOf offset := by
  rw [lineOf_ofText, lineOf_ofText, newlinesBefore_cons hl, Nat.add_sub_cancel_left]

/-! ### Headers -/

theorem text_behind (m : Match Slot) (slot : Slot) : (m.behind lead).text slot = m.text slot := by
  rw [Match.text, Match.text, Match.text?_behind]

theorem CSharp.typeHeader?_behind (m : Match Slot) :
    CSharp.typeHeader? (m.behind lead) = (CSharp.typeHeader? m).map (.behind lead) := by
  rw [CSharp.typeHeader?, CSharp.typeHeader?]
  simp only [text_behind, Match.text?_behind]
  split
  · rfl
  · cases (words (m.text .kind)).head? with
    | none => rfl
    | some word =>
      cases hk : TypeKind.ofKeyword? word with
      | none => simp [hk]
      | some kind =>
        simp only [Option.bind_eq_bind, Option.bind_some, hk]
        rfl

theorem Java.typeHeader?_behind (m : Match Slot) :
    Java.typeHeader? (m.behind lead) = (Java.typeHeader? m).map (.behind lead) := by
  rw [Java.typeHeader?, Java.typeHeader?]
  simp only [text_behind, Match.text?_behind]
  cases TypeKind.ofKeyword? (m.text .kind) <;> rfl

theorem ofMatch_behind (m : Match Slot) :
    MemberHeader.ofMatch (m.behind lead) = (MemberHeader.ofMatch m).behind lead := by
  simp only [MemberHeader.ofMatch, text_behind, Match.text?_behind]
  rfl

section Headers

variable (hl : IsLead lead) (language : Language) (t : Text)
include hl

theorem typeHeaders_lead :
    language.typeHeaders (lead :: t) = (language.typeHeaders t).map (.behind lead) := by
  have moved : ∀ {p : Pattern Slot} {read : Match Slot → Option TypeHeader},
      p.looksForLine = false →
      Shy (· = lead) p → (∀ m, read (m.behind lead) = (read m).map (.behind lead)) →
      (p.allMatches (lead :: t)).filterMap read = ((p.allMatches t).filterMap read).map
        (.behind lead) := by
    intro p read hp hs hr
    have matches' : p.allMatches (lead :: t) = (p.allMatches t).map (.behind lead) :=
      matchesUnless_cons hl.word hp hs (fun _ => rfl) t
    rw [matches', List.filterMap_map, List.map_filterMap]
    congr 1
    exact funext hr
  cases language with
  | csharp => exact moved (by decide) (CSharp.shy_typePattern hl.outside) CSharp.typeHeader?_behind
  | java => exact moved (by decide) (Java.shy_typePattern hl.outside) Java.typeHeader?_behind

theorem memberHeaders_lead {p : Pattern Slot} (hp : p.looksForLine = false)
    (hs : Shy (· = lead) p) :
    memberHeaders p (lead :: t) = (memberHeaders p t).map (.behind lead) := by
  rw [memberHeaders, memberHeaders,
    matchesUnless_cons hl.word hp hs (endsInAttribute_behind hl) t, List.map_map, List.map_map]
  congr 1
  exact funext ofMatch_behind

theorem methodHeaders_lead :
    language.methodHeaders (lead :: t) = (language.methodHeaders t).map (.behind lead) := by
  cases language with
  | csharp => exact memberHeaders_lead hl t (by decide) (CSharp.shy_methodPattern hl.outside)
  | java => exact memberHeaders_lead hl t (by decide) (Java.shy_methodPattern hl.outside)

theorem constructorHeaders_lead :
    language.constructorHeaders (lead :: t) = (language.constructorHeaders t).map
      (.behind lead) := by
  cases language with
  | csharp => exact memberHeaders_lead hl t (by decide) (CSharp.shy_constructorPattern hl.outside)
  | java => exact memberHeaders_lead hl t (by decide) (Java.shy_constructorPattern hl.outside)

/-- The types of a text with the character in front, as far as lines and attributes do not tell the
two apart. -/
theorem types_lead {v v' : View} (parameter : v.parameter = v'.parameter)
    (line : ∀ offset, v.line ((LineTable.ofText t).lineOf offset) =
      v'.line ((LineTable.ofText (lead :: t)).lineOf (lead.utf8Size + offset)))
    (attributes : ∀ here : Cursor, here.IsIn t →
    v.attributes (attributesAbove language.attributeMark here.before) =
      v'.attributes (attributesAbove language.attributeMark (here.before ++ [lead]))) :
    (Site.ofMasked language t).types.map v.ofType = (Site.ofMasked language (lead :: t)).types.map
      v'.ofType := by
  have moved {α : Type} {r : α → α → Prop} {f : α → α} {l : List α} (h : ∀ a ∈ l, r a (f a)) :
      List.Forall₂ r l (l.map f) := by
    rw [List.forall₂_map_right_iff, List.forall₂_same]
    exact h
  have order : ∀ a b, lead.utf8Size + a ≤ lead.utf8Size + b ↔ a ≤ b := fun a b => by omega
  refine Site.map_types_eq order ?_ ?_ ?_
  · show List.Forall₂ _ (language.typeHeaders t) (language.typeHeaders (lead :: t))
    rw [typeHeaders_lead hl]
    refine moved fun h hh => ⟨?_, rfl⟩
    have place := language.isIn_of_mem_typeHeaders t hh
    simp only [View.ofType, Site.typeOf, Site.attributes, Site.ofMasked, TypeHeader.behind,
      TypeHeader.start, parameter, line, attributes _ place]
    rfl
  · have headers : (Site.ofMasked language (lead :: t)).methodHeaders =
        (Site.ofMasked language t).methodHeaders.map (.behind lead) := by
      show (language.methodHeaders (lead :: t)).filter _ = _
      rw [methodHeaders_lead hl, List.filter_map]
      rfl
    rw [headers]
    refine moved fun m hm => ⟨?_, rfl⟩
    have place := language.isIn_of_mem_methodHeaders t (List.mem_of_mem_filter hm)
    simp only [View.ofMethod, Site.methodOf, Site.attributes, Site.ofMasked, MemberHeader.behind,
      MemberHeader.start, parameter, line, attributes _ place]
    cases language <;> rfl
  · show List.Forall₂ _ (language.constructorHeaders t) (language.constructorHeaders (lead :: t))
    rw [constructorHeaders_lead hl]
    refine moved fun c hc => ⟨⟨?_, (isCreationLike_behind hl c).symm⟩, rfl⟩
    have place := language.isIn_of_mem_constructorHeaders t hc
    simp only [View.ofConstructor, Site.constructorOf, Site.attributes, Site.ofMasked,
      MemberHeader.behind, MemberHeader.start, parameter, line, attributes _ place]
    cases language <;> rfl

end Headers

/-! ### The scope -/

section Scope

variable {language : Language}

theorem declared_behind (hw : isWord lead = false) (here : Cursor) :
    language.declared (here.behind lead) = language.declared here := by
  have free : language.declaration.looksForLine = false := by cases language <;> decide
  have moved : language.declaration.run (here.behind lead) stopHere =
      (language.declaration.run here stopHere).map (.behind lead) :=
        run_behind hw free (fun _ => rfl) here
  rw [Language.declared, Language.declared, moved, Option.map_map]
  congr 1
  funext e
  exact Match.text?_behind ⟨here, e⟩ .scope

theorem declaredFrom_behind (hw : isWord lead = false) (here : Cursor)
    (hb : here.before ≠ [] ∨ lead = '\n' ∨ language.declared here = none) :
    language.declaredFrom (here.behind lead) = language.declaredFrom here := by
  have line : ∀ here : Cursor, here.before ≠ [] ∨ lead = '\n' ∨ language.declared here = none →
      language.declaredAt (here.behind lead) = language.declaredAt here := by
    intro here hb
    have same :
        here.before ≠ [] ∨ lead = '\n' → (here.behind lead).atLineStart = here.atLineStart := by
      intro hb
      rw [Cursor.atLineStart, Cursor.atLineStart, Cursor.behind]
      cases hh : here.before with
      | nil => simpa using hb.resolve_left fun hn => hn hh
      | cons => rfl
    rw [Language.declaredAt, Language.declaredAt, declared_behind hw]
    rcases or_assoc.mpr hb with hb | hn
    · rw [same hb]
    · rw [hn, ite_self, ite_self]
  induction hr : here.rest generalizing here with
  | nil =>
    rw [Language.declaredFrom, Language.declaredFrom, Cursor.rest_behind, hr, Cursor.placesFrom,
      Cursor.placesFrom, List.findSome?_singleton, List.findSome?_singleton, line here hb]
  | cons c rest ih =>
    rw [declaredFrom_cons (here.behind lead) hr, declaredFrom_cons here hr, line here hb,
      Cursor.past_behind, ih _ (.inl (by simp [Cursor.past])) rfl]

/-- A newline in front of a text leaves its scope. -/
theorem scope?_newline (t : Text) : language.scope? ('\n' :: t) = language.scope? t := by
  have first :
    (Cursor.ofText ('\n' :: t)).beyond ([] ++ ['\n']) t = (Cursor.ofText t).behind '\n' := rfl
  have blank : language.declaredFrom (Cursor.ofText ('\n' :: t)) = _ :=
    declaredFrom_blank (b := []) _ (fun c hc => absurd hc List.not_mem_nil) rfl
  rw [scope?_eq, scope?_eq, blank, first,
    declaredFrom_behind (by decide) _ (.inr (.inl rfl))]

theorem declared_eq_none (hb : here.rest.head?.any isBlank = false)
    (hw : ¬language.scopeWord <+: here.rest) :
    language.declared here = none := by
  have noBlank : (one isBlank : Pattern Slot).Fails here := fails_one fun c hc => by
    rw [hc] at hb
    simpa using hb
  rw [Language.declared, Language.declaration, run_all_cons, blanks, run, rounds_eq, noBlank,
    Option.none_or, run_all_cons, fails_literal hw, Option.map_none]

/-- A text is blank up to a newline, or its first line begins behind its blanks. -/
theorem exists_firstLine (t : Text) : ∃ b u, t = b ++ u ∧ Blank b ∧
    (u.head? = some '\n' ∨ u.head?.any isBlank = false ∧ firstLine t = u.takeWhile (· ≠ '\n')) := by
  induction t with
  | nil => exact ⟨[], [], rfl, fun c hc => absurd hc List.not_mem_nil, .inr ⟨rfl, rfl⟩⟩
  | cons c t ih =>
    have none : Blank [] := fun c hc => absurd hc List.not_mem_nil
    by_cases hn : c = '\n'
    · exact ⟨[], c :: t, rfl, none, .inl (by rw [hn]; rfl)⟩
    have line : firstLine (c :: t) = trimStart (c :: t.takeWhile (· ≠ '\n')) := by
      rw [firstLine, List.takeWhile_cons_of_pos (by simpa using hn)]
    by_cases hc : isBlank c = true
    · obtain ⟨b, u, rfl, hb, hu⟩ := ih
      refine ⟨c :: b, u, rfl, fun d hd => ?_, hu.imp_right fun hu => ⟨hu.1, ?_⟩⟩
      · rcases List.mem_cons.mp hd with rfl | hd
        · exact hc
        · exact hb d hd
      · rw [line, trimStart, List.dropWhile_cons_of_pos hc, ← hu.2, firstLine, trimStart]
    · refine ⟨[], c :: t, rfl, none, .inr ⟨by simpa using hc, ?_⟩⟩
      rw [line, trimStart, List.dropWhile_cons_of_neg hc,
        List.takeWhile_cons_of_pos (by simpa using hn)]

/-- Another character in front of a text leaves its scope if the first line does not declare it. -/
theorem scope?_lead (hb : isBlank lead = false) (hw : isWord lead = false)
    (hf : ¬language.scopeWord <+: firstLine t) :
    language.scope? (lead :: t) = language.scope? t := by
  have other : lead ≠ '\n' := fun he => by rw [he] at hb; exact absurd hb (by decide)
  have word : language.scopeWord.head?.any isWord = true ∧ '\n' ∉ language.scopeWord := by
    cases language <;> decide
  -- nothing is declared in front of the character, and no line begins behind it
  have front : language.declaredAt (Cursor.ofText (lead :: t)) = none := by
    refine (if_pos rfl).trans (declared_eq_none (by simpa [Cursor.ofText] using hb) ?_)
    rintro ⟨rest, hr⟩
    have head := congrArg (fun t : Text => t.head?.any isWord) hr
    cases hs : language.scopeWord with
    | nil => simp [hs] at word
    | cons c w => simp_all [Cursor.ofText]
  have first : (Cursor.ofText (lead :: t)).past lead t = (Cursor.ofText t).behind lead := by
    simp [Cursor.ofText, Cursor.past, Cursor.behind]
  have rest :
      language.declaredFrom ((Cursor.ofText t).behind lead) = language.declaredFrom
        (Cursor.ofText t) := by
    obtain ⟨b, u, rfl, hblank, hu | ⟨hu, line⟩⟩ := exists_firstLine t
    · obtain ⟨u, rfl⟩ : ∃ u', u = '\n' :: u' := by
        cases u with
        | nil => exact absurd hu (by simp)
        | cons c u => exact ⟨u, by rw [Option.some.inj hu]⟩
      have later : ((Cursor.ofText (b ++ '\n' :: u)).behind lead).beyond (b ++ ['\n']) u =
          ((Cursor.ofText (b ++ '\n' :: u)).beyond (b ++ ['\n']) u).behind lead := by
        simp [Cursor.beyond, Cursor.behind, Nat.add_assoc]
      rw [declaredFrom_blank ((Cursor.ofText (b ++ '\n' :: u)).behind lead) hblank rfl, later,
        declaredFrom_behind hw _
          (.inl (by simp [Cursor.beyond])), ← declaredFrom_blank _ hblank rfl]
    · refine declaredFrom_behind hw _ (.inr (.inr ?_))
      rw [declared_blank hblank rfl]
      refine declared_eq_none hu ?_
      rintro ⟨rest, hr⟩
      refine hf ?_
      have whole : ∀ c ∈ language.scopeWord, decide (c ≠ '\n') = true := fun c hc =>
        decide_eq_true fun he => word.2 (he ▸ hc)
      rw [line, ← show language.scopeWord ++ rest = u from hr, List.takeWhile_append_of_pos whole]
      exact List.prefix_append _ _
  rw [scope?_eq, scope?_eq, declaredFrom_cons _ rfl, front, Option.none_or, first, rest]

end Scope

end SourceSurvey.Source
