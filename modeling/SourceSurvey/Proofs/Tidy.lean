import SourceSurvey.Proofs.Collapsed
import SourceSurvey.Proofs.Grouping
import SourceSurvey.Proofs.LinesAbove
import SourceSurvey.Proofs.Rejoining

/-! What is read off a text is in normal form. Each part that a header marks is read by a pattern of
its own, and what such a pattern reads at all is what can be told: a clause of type parameters holds
its bracket and a return type begins a name, so neither is blank, and both are told with single
spaces. A prototype lists such parts with a space between neighbours, whichever of them are there,
and an attribute is a line that begins with the mark. -/

namespace SourceSurvey

open Text

/-! ### What the parts of a match are -/

namespace Pattern

variable {σ : Type} [DecidableEq σ] {p : Pattern σ} {ps back : List (Pattern σ)}
  {body : Pattern σ} {name : σ}
  {here there : Cursor} {e m e' : Ending σ} {P : Text → Prop} {w : Text}

/-- Whether a pattern reads only texts of some kind wherever it marks a part with a name. -/
def Confines (name : σ) (P : Text → Prop) : Pattern σ → Prop
  | seq first second => first.Confines name P ∧ second.Confines name P
  | alt first second => first.Confines name P ∧ second.Confines name P
  | star body => body.Confines name P
  | lazyStar body => body.Confines name P
  | mark other body => if other = name then name ∉ body.marks ∧ ∀ w, body.Reads w →
      P w else body.Confines name P
  | nothing => True
  | one _ => True
  | wordEdge => True
  | lineStart => True

/-- Whether an ending marks a part where another one does, or else at a text of some kind. -/
def Ending.Adds (name : σ) (P : Text → Prop) (e' e : Ending σ) : Prop :=
  (e.begins.lookup name = e'.begins.lookup name ∧ e.ends.lookup name = e'.ends.lookup name) ∨
    ∃ first last w, e.Marks name ⟨first, last⟩ ∧ P w ∧ first.rest = w ++ last.rest ∧
      last = first.beyond w last.rest

theorem Ending.Adds.trans (h : Ending.Adds name P m e) (h' : Ending.Adds name P e' m) :
    Ending.Adds name P e' e := by
  rcases h with ⟨begins, ends⟩ | h
  · rcases h' with h' | ⟨first, last, w, marks, part⟩
    · exact .inl ⟨begins.trans h'.1, ends.trans h'.2⟩
    · refine .inr ⟨first, last, w, ?_, part⟩
      rwa [Ending.Marks, begins, ends]
  · exact .inr h

theorem Ending.adds_markBegin {other : σ} (h : other ≠ name) (here : Cursor) (e : Ending σ) :
    Ending.Adds name P e (e.markBegin other here) := by
  refine .inl ⟨?_, rfl⟩
  simp only [markBegin, List.lookup_cons, beq_false_of_ne (Ne.symm h)]

theorem Ending.adds_markEnd {other : σ} (h : other ≠ name) (here : Cursor) (e : Ending σ) :
    Ending.Adds name P e (e.markEnd other here) := by
  refine .inl ⟨rfl, ?_⟩
  simp only [markEnd, List.lookup_cons, beq_false_of_ne (Ne.symm h)]

/-- Along a reading parts with a name come only from patterns that mark it, and where there are
several the first counts. -/
theorem Leads.adds (h : p.Leads here e there e') (hp : p.Confines name P) :
    Ending.Adds name P e' e := by
  induction h with
  | nothing | one | starDone | lazyDone | wordEdge | lineStart => exact .inl ⟨rfl, rfl⟩
  | seq _ _ ih ih' => exact (ih hp.1).trans (ih' hp.2)
  | left _ ih => exact ih hp.1
  | right _ ih => exact ih hp.2
  | starRound _ _ _ ih ih' | lazyRound _ _ _ ih ih' => exact (ih hp).trans (ih' hp)
  | @mark other body here e there e' h ih =>
    rw [Confines] at hp
    split at hp
    · next same =>
      subst same
      obtain ⟨w, read, rest⟩ := h.exists_reads
      exact .inr ⟨here, there, w, (Leads.mark h).marks_mark hp.1, hp.2 w read, rest,
        h.eq_beyond rest⟩
    · next apart =>
      exact (Ending.adds_markBegin apart here e).trans
        ((ih hp).trans (Ending.adds_markEnd apart there e'))

/-- The part of a match that is told under a name is a text that the pattern confines it to. -/
theorem Match.text?_of_confines {m : Match σ} (hp : p.Confines name P)
    (hm : p.matchAt here = some m) (ht : m.text? name = some w) : P w := by
  obtain ⟨e, he, rfl⟩ := Option.map_eq_some_iff.mp hm
  obtain ⟨there, e', hn, leads⟩ := exists_leads_of_run he
  obtain rfl := Option.some.inj hn
  rcases leads.adds hp with ⟨begins, -⟩ | ⟨first, last, v, marks, hv, rest, stop⟩
  · have absent : e.begins.lookup name = none := begins
    rw [Match.text?, Match.span?, absent] at ht
    exact absurd ht (by simp)
  · rw [Match.text?_of_marks marks rest stop] at ht
    exact Option.some.inj ht ▸ hv

theorem confines_of_notMem (h : name ∉ p.marks) : p.Confines name P := by
  induction p with
  | seq first second ih ih' | alt first second ih ih' =>
    rw [marks, List.mem_append, not_or] at h
    exact ⟨ih h.1, ih' h.2⟩
  | star body ih | lazyStar body ih => exact ih h
  | mark other body ih =>
    rw [marks, List.mem_cons, not_or] at h
    rw [Confines, if_neg (Ne.symm h.1)]
    exact ih h.2
  | _ => trivial

theorem confines_mark (hn : name ∉ body.marks) (h : ∀ w, body.Reads w → P w) :
    (mark name body).Confines name P := by
  rw [Confines, if_pos rfl]
  exact ⟨hn, h⟩

theorem Confines.optional (h : p.Confines name P) : (optional p).Confines name P := ⟨h, trivial⟩

theorem confines_all (h : ∀ q ∈ ps, q.Confines name P) : (all ps).Confines name P := by
  induction ps with
  | nil => trivial
  | cons p ps ih =>
    rw [List.forall_mem_cons] at h
    cases ps with
    | nil => exact h.1
    | cons q ps => exact ⟨h.1, ih h.2⟩

/-- Of patterns one after another, the one that marks the part decides. -/
theorem Confines.among (h : p.Confines name P) (front : List (Pattern σ))
    (hf : ∀ q ∈ front, name ∉ q.marks)
    (hb : ∀ q ∈ back, name ∉ q.marks) : (all (front ++ p :: back)).Confines name P :=
  confines_all <| List.forall_mem_append.mpr ⟨fun q hq => confines_of_notMem (hf q hq),
    List.forall_mem_cons.mpr ⟨h, fun q hq => confines_of_notMem (hb q hq)⟩⟩

/-- A part that a pattern marks in any case is there. -/
theorem Match.isSome_text?_of_part {m : Match σ} (front : List (Pattern σ))
    (hm : (all (front ++ mark name body :: back)).matchAt here = some m)
    (hf : ∀ q ∈ front, name ∉ q.marks) (hn : name ∉ body.marks) : (m.text? name).isSome = true := by
  obtain ⟨e, he, rfl⟩ := Option.map_eq_some_iff.mp hm
  obtain ⟨there, e', -, leads⟩ := exists_leads_of_run he
  obtain ⟨first, m, last, m', part, marks⟩ := leads.exists_part hf hn
  obtain ⟨w, hw, ht⟩ := part.exists_beyond
  rw [Match.text?_of_marks marks hw ht, Option.isSome_some]

/-- A part that is never blank is tidy when it is collapsed. -/
theorem tidy_map_collapse {m : Match σ} (hp : p.Confines name (¬Blank ·))
    (hm : p.matchAt here = some m) :
    ∀ t ∈ (m.text? name).map collapse, Tidy t := by
  intro t ht
  obtain ⟨w, hw, rfl⟩ := Option.map_eq_some_iff.mp ht
  exact tidy_collapse (Match.text?_of_confines hp hm hw)

end Pattern

namespace Source

open Pattern

variable {w t signs : Text}

/-! ### Headers -/

theorem not_blank_of_mem {c : Char} (hm : c ∈ w) (hc : isBlank c = false) : ¬Blank w :=
  fun hb => by simp [hb c hm] at hc

theorem not_blank_of_reads_angleGroup (h : (angleGroup signs).Reads w) : ¬Blank w := by
  obtain ⟨u, v, rfl, hu, -⟩ := Reads.all_cons h
  exact not_blank_of_mem (by simp [hu.sign] : '<' ∈ u ++ v) (by decide)

theorem not_blank_of_reads_returnType {p : Pattern Slot} (h : (seq (one isNameStart) p).Reads w) :
    ¬Blank w := by
  obtain ⟨u, v, rfl, hu, -⟩ := h.seq
  obtain ⟨c, rfl, hc⟩ : ∃ c, u = [c] ∧ isNameStart c = true := hu.elim fun _ _ _ _ hl => by
    obtain ⟨c, hc, hr, -⟩ := leads_one hl
    exact ⟨[c], ⟨c, rfl, hc⟩, hr⟩
  exact not_blank_of_mem (by simp : c ∈ [c] ++ v) (isBlank_of_isNameStart hc)

/-- Type parameters behind a name, or in front of a member. -/
theorem confines_typeParameters (signs : Text) :
    (optional (mark .typeParameters (seq blanks (angleGroup signs)))).Confines
      Slot.typeParameters (¬Blank ·) ∧
      (optional (mark .typeParameters (seq (angleGroup signs) blanks))).Confines Slot.typeParameters
        (¬Blank ·) := by
  constructor
  · refine (confines_mark (by simp [blanks, angleGroup, marks, all, sign, lazyPlus, noneOf])
      fun w h => ?_).optional
    obtain ⟨u, v, rfl, -, hv⟩ := h.seq
    exact fun hb => not_blank_of_reads_angleGroup hv hb.right
  · refine (confines_mark (by simp [blanks, angleGroup, marks, all, sign, lazyPlus, noneOf])
      fun w h => ?_).optional
    obtain ⟨u, v, rfl, hu, -⟩ := h.seq
    exact fun hb => not_blank_of_reads_angleGroup hu hb.left

/-- What a pattern of member headers has for its parts to be in normal form. -/
structure ReadsTidily (p : Pattern Slot) : Prop where
  name : MarksSolid .name p
  typeParameters : p.Confines .typeParameters (¬Blank ·)
  returnType : p.Confines .returnType (¬Blank ·)

theorem CSharp.confines_type : CSharp.typePattern.Confines .typeParameters (¬Blank ·) :=
  (confines_typeParameters _).1.among
    [modifierRun CSharp.typeModifiers, wordEdge, CSharp.kindPattern, someBlanks, named]
      (by decide) (by decide)

theorem Java.confines_type : Java.typePattern.Confines .typeParameters (¬Blank ·) :=
  (confines_typeParameters _).1.among [modifierRun Java.typeModifiers, Java.kindPattern,
    someBlanks, named]
    (by decide) (by decide)

theorem confines_returnType (p : Pattern Slot) (h : .returnType ∉ p.marks) :
    (mark .returnType (seq (one isNameStart) p)).Confines Slot.returnType (¬Blank ·) :=
  confines_mark (by simpa [marks] using h) fun _ => not_blank_of_reads_returnType

theorem CSharp.readsTidily_method : ReadsTidily CSharp.methodPattern where
  name := CSharp.marksSolid_methodName
  typeParameters := (confines_typeParameters _).1.among
    [modifierRun CSharp.methodModifiers, wordEdge, mark .returnType _, someBlanks, named]
      (by decide) (by decide)
  returnType :=
    (confines_returnType _ (by decide)).among [modifierRun CSharp.methodModifiers, wordEdge]
    (by decide) (by decide)

theorem CSharp.readsTidily_constructor : ReadsTidily CSharp.constructorPattern where
  name := CSharp.marksSolid_constructorName
  typeParameters := confines_of_notMem (by decide)
  returnType := confines_of_notMem (by decide)

theorem Java.readsTidily_method : ReadsTidily Java.methodPattern where
  name := Java.marksSolid_methodName
  typeParameters :=
    (confines_typeParameters _).2.among [modifierRun Java.methodModifiers] (by decide) (by decide)
  returnType := (confines_returnType _ (by decide)).among
    [modifierRun Java.methodModifiers, Java.memberTypeParameters, wordEdge] (by decide) (by decide)

theorem Java.readsTidily_constructor : ReadsTidily Java.constructorPattern where
  name := Java.marksSolid_constructorName
  typeParameters :=
    (confines_typeParameters _).2.among [modifierRun Java.constructorModifiers]
      (by decide) (by decide)
  returnType := confines_of_notMem (by decide)

/-- The parts of a member header in normal form. -/
structure MemberHeader.IsTidy (h : MemberHeader) : Prop where
  name : Solid h.name
  modifiers : ∀ w ∈ h.modifiers, Solid w ∧ w ≠ []
  typeParameters : ∀ t ∈ h.typeParameters, Tidy t
  returnType : ∀ t ∈ h.returnType, Tidy t
  throws : ∀ t ∈ h.throws, Tidy t

/-- The parts of a type header in normal form. -/
structure TypeHeader.IsTidy (h : TypeHeader) : Prop where
  name : Solid h.name
  modifiers : ∀ w ∈ h.modifiers, Solid w ∧ w ≠ []
  typeParameters : ∀ t ∈ h.typeParameters, Tidy t
  supertypes : ∀ t ∈ h.baseTypes ++ h.parents ++ h.interfaces ++ h.permitted, Tidy t

theorem tidy_of_mem_splitClause {clause : Option Text} (h : t ∈ splitClause clause) : Tidy t := by
  obtain ⟨collapsed, solid⟩ := collapse_of_mem_splitClause h
  refine ⟨collapsed, ?_⟩
  rintro rfl
  exact solid fun c hc => absurd hc List.not_mem_nil

theorem MemberHeader.isTidy_ofMatch {p : Pattern Slot} {here : Cursor} {m : Match Slot}
    (hp : ReadsTidily p) (hm : p.matchAt here = some m) : (ofMatch m).IsTidy where
  name := hp.name.text hm
  modifiers _ := solid_of_mem_words
  typeParameters := tidy_map_collapse hp.typeParameters hm
  returnType := tidy_map_collapse hp.returnType hm
  throws _ := tidy_of_mem_splitClause

theorem isTidy_of_mem_memberHeaders {p : Pattern Slot} {h : MemberHeader} (hp : ReadsTidily p)
    (hh : h ∈ memberHeaders p t) :
    h.IsTidy := by
  obtain ⟨m, hm, rfl⟩ := List.mem_map.mp hh
  obtain ⟨here, -, hm⟩ := exists_matchAt_of_mem hm
  exact MemberHeader.isTidy_ofMatch hp hm

theorem exists_returnType_of_mem {p : Pattern Slot} {h : MemberHeader}
    (hp : ∀ here m, p.matchAt here = some m → (m.text? .returnType).isSome = true)
    (hh : h ∈ memberHeaders p t) :
    ∃ r, h.returnType = some r := by
  obtain ⟨m, hm, rfl⟩ := List.mem_map.mp hh
  obtain ⟨here, -, hm⟩ := exists_matchAt_of_mem hm
  obtain ⟨w, hw⟩ := Option.isSome_iff_exists.mp (hp here m hm)
  exact ⟨collapse w, by rw [MemberHeader.ofMatch, hw, Option.map_some]⟩

theorem CSharp.isTidy_of_typeHeader? {here : Cursor} {m : Match Slot} {h : TypeHeader}
    (hm : CSharp.typePattern.matchAt here = some m)
    (hh : CSharp.typeHeader? m = some h) : h.IsTidy := by
  rw [CSharp.typeHeader?] at hh
  split at hh
  · exact absurd hh (by simp)
  · obtain ⟨word, -, hh⟩ := Option.bind_eq_some_iff.mp hh
    obtain ⟨kind, -, hh⟩ := Option.bind_eq_some_iff.mp hh
    rw [← Option.some.inj hh]
    exact {
      name := CSharp.marksSolid_typeName.text hm
      modifiers _ := solid_of_mem_words
      typeParameters := tidy_map_collapse CSharp.confines_type hm
      supertypes t ht := tidy_of_mem_splitClause (by simpa using ht) }

theorem Java.isTidy_of_typeHeader? {here : Cursor} {m : Match Slot} {h : TypeHeader}
    (hm : Java.typePattern.matchAt here = some m)
    (hh : Java.typeHeader? m = some h) : h.IsTidy := by
  obtain ⟨kind, -, hh⟩ := Option.bind_eq_some_iff.mp hh
  rw [← Option.some.inj hh]
  refine ⟨Java.marksSolid_typeName.text hm, fun _ => solid_of_mem_words,
    tidy_map_collapse Java.confines_type hm, fun t ht => ?_⟩
  simp only [List.nil_append, List.mem_append] at ht
  rcases ht with (ht | ht) | ht <;> exact tidy_of_mem_splitClause ht

end Source

namespace Language

open Source

variable {language : Language} {t : Text}

theorem isTidy_of_mem_typeHeaders {h : TypeHeader}
    (hh : h ∈ language.typeHeaders t) : h.IsTidy := by
  cases language with
  | csharp =>
    obtain ⟨m, hm, hr⟩ := List.mem_filterMap.mp hh
    obtain ⟨here, -, hm⟩ := Pattern.exists_matchAt_of_mem hm
    exact CSharp.isTidy_of_typeHeader? hm hr
  | java =>
    obtain ⟨m, hm, hr⟩ := List.mem_filterMap.mp hh
    obtain ⟨here, -, hm⟩ := Pattern.exists_matchAt_of_mem hm
    exact Java.isTidy_of_typeHeader? hm hr

theorem isTidy_of_mem_methodHeaders {h : MemberHeader}
    (hh : h ∈ language.methodHeaders t) : h.IsTidy := by
  cases language with
  | csharp => exact isTidy_of_mem_memberHeaders CSharp.readsTidily_method hh
  | java => exact isTidy_of_mem_memberHeaders Java.readsTidily_method hh

theorem exists_returnType {h : MemberHeader} (hh : h ∈ language.methodHeaders t) :
    ∃ r, h.returnType = some r := by
  cases language with
  | csharp => exact exists_returnType_of_mem (fun _ _ hm => Pattern.Match.isSome_text?_of_part
      [modifierRun CSharp.methodModifiers, Pattern.wordEdge] hm (by decide) (by decide)) hh
  | java => exact exists_returnType_of_mem (fun _ _ hm => Pattern.Match.isSome_text?_of_part
      [modifierRun Java.methodModifiers, Java.memberTypeParameters, Pattern.wordEdge] hm (by decide)
        (by decide)) hh

theorem isTidy_of_mem_constructorHeaders {h : MemberHeader}
    (hh : h ∈ language.constructorHeaders t) : h.IsTidy := by
  cases language with
  | csharp => exact isTidy_of_mem_memberHeaders CSharp.readsTidily_constructor hh
  | java => exact isTidy_of_mem_memberHeaders Java.readsTidily_constructor hh

end Language

namespace Source

variable {header : MemberHeader} {mark : Char} {t a : Text} {ls : List Text}

/-! ### Prototypes -/

theorem MemberHeader.IsTidy.modifierPart (h : header.IsTidy) :
    ∀ t ∈ if header.modifiers = [] then [] else [[' '].intercalate header.modifiers], Tidy t := by
  intro t ht
  split at ht
  · exact absurd ht List.not_mem_nil
  · next some =>
    rw [List.mem_singleton.mp ht]
    exact tidy_intercalate_words h.modifiers some

theorem tidy_signature (h : Collapsed a) (list : Text) :
    Tidy (a ++ ['('] ++ collapse list ++ [')']) := by
  have sign {c : Char} (hc : isBlank c = false) : Collapsed [c] :=
    collapsed_of_solid fun d hd => List.mem_singleton.mp hd ▸ hc
  exact ⟨((h.append (sign (by decide))).append (collapsed_collapse list)).append
    (sign (by decide)), by simp⟩

theorem CSharp.tidy_prototype (h : header.IsTidy) : Tidy (CSharp.prototype header) := by
  have named : Collapsed (header.name ++ header.typeParameters.getD []) := by
    refine (collapsed_of_solid h.name).append ?_
    cases ht : header.typeParameters with
    | none => rfl
    | some t => exact (h.typeParameters t ht).collapsed
  refine tidy_intercalate (s := []) (by decide) (fun t ht => ?_) (by simp)
  simp only [List.mem_append, Option.mem_toList, List.mem_singleton] at ht
  rcases ht with (ht | ht) | rfl
  · exact h.modifierPart t ht
  · exact h.returnType t ht
  · exact tidy_signature named header.parameters

theorem Java.tidy_prototype (h : header.IsTidy) : Tidy (Java.prototype header) := by
  have thrown :
      ∀ t ∈ if header.throws = [] then []
        else ["throws ".toList ++ [',', ' '].intercalate header.throws], Tidy t := by
    intro t ht
    split at ht
    · exact absurd ht List.not_mem_nil
    · next some =>
      have list : Tidy ([',', ' '].intercalate header.throws) :=
        tidy_intercalate (s := [',']) (by decide) h.throws some
      have word : Collapsed "throws".toList := collapsed_of_solid (by decide)
      have split : "throws ".toList = "throws".toList ++ [' '] := by decide
      rw [List.mem_singleton.mp ht, split, List.append_assoc, List.singleton_append]
      exact ⟨word.spaced list.collapsed (by decide) list.some,
        List.append_ne_nil_of_right_ne_nil _ (List.cons_ne_nil _ _)⟩
  refine tidy_intercalate (s := []) (by decide) (fun t ht => ?_)
    (List.append_ne_nil_of_left_ne_nil
      (List.append_ne_nil_of_right_ne_nil _ (List.cons_ne_nil _ _)) _)
  simp only [List.mem_append, Option.mem_toList, List.mem_singleton] at ht
  rcases ht with (((ht | ht) | ht) | rfl) | ht
  · exact h.modifierPart t ht
  · exact h.typeParameters t ht
  · exact h.returnType t ht
  · exact tidy_signature (collapsed_of_solid h.name) header.parameters
  · exact thrown t ht

theorem tidy_prototype (language : Language) (h : header.IsTidy) :
    Tidy (language.prototype header) := by
  cases language with
  | csharp => exact CSharp.tidy_prototype h
  | java => exact Java.tidy_prototype h

/-! ### Attributes -/

/-- An attribute as it is reported: a line without blanks around it that begins with the mark. -/
structure IsAttribute (mark : Char) (a : Text) : Prop where
  line : '\n' ∉ a
  trimmed : trim a = a
  marked : a.head? = some mark

theorem mem_markedLines (h : a ∈ markedLines mark ls) :
    ∃ line ∈ ls, isMarked mark line = true ∧ a = trim line := by
  induction ls with
  | nil => exact absurd h List.not_mem_nil
  | cons line below ih =>
    rw [markedLines_cons, List.mem_append] at h
    rcases h with h | h
    · split at h
      · next taken =>
          exact ⟨line, List.mem_cons_self, ((Bool.and_eq_true ..).mp taken).1,
            List.mem_singleton.mp h⟩
      · exact absurd h List.not_mem_nil
    · obtain ⟨line, hl, rest⟩ := ih h
      exact ⟨line, List.mem_cons_of_mem _ hl, rest⟩

theorem mem_of_mem_trim {c : Char} (h : c ∈ trim t) : c ∈ t := by
  obtain ⟨a, b, split, -⟩ := exists_trim t
  rw [split]
  simp [h]

theorem Site.isAttribute {site : Site} {place : Cursor} (h : a ∈ site.attributes place) :
    IsAttribute site.language.attributeMark a := by
  rw [Site.attributes, ← List.reverse_reverse place.before, attributesAbove_reverse] at h
  obtain ⟨line, hl, marked, rfl⟩ := mem_markedLines h
  obtain ⟨-, -, -, whole, -⟩ := mem_splitAll_iff.mp (List.dropLast_subset _ hl)
  refine ⟨fun hc => ?_, trim_trim line, of_decide_eq_true marked⟩
  simpa using whole '\n' (mem_of_mem_trim hc)

end Source

end SourceSurvey
