import SourceSurvey.Proofs.Attribution
import SourceSurvey.Proofs.Tidy
import SourceSurvey.Report.Outline

/-! The lines of an outline. Every declaration of a text has its texts in normal form, so no line
that is written of one holds a newline. So the outline of a file has the lines it is made of: one
for the file and one for each of its types, leading attributes of types, constructors and methods.
-/

namespace SourceSurvey

namespace Text

variable {ls : List Text}

/-- Lines that hold no newline are read back as they were written. -/
theorem lines_ofLines (h : ∀ line ∈ ls, '\n' ∉ line) : lines (ofLines ls) = ls ++ [[]] := by
  induction ls with
  | nil => rfl
  | cons line ls ih =>
    rw [List.forall_mem_cons] at h
    have split : ofLines (line :: ls) = line ++ '\n' :: ofLines ls := by
      rw [ofLines, List.flatMap_cons, List.append_assoc, List.singleton_append, ofLines]
    rw [split, lines_append_newline, lines_of_notMem h.1, ih h.2, List.singleton_append,
      List.cons_append]

theorem count_newline_ofLines (h : ∀ line ∈ ls, '\n' ∉ line) :
    (ofLines ls).count '\n' = ls.length := by
  have length := length_lines (ofLines ls)
  rw [lines_ofLines h, List.length_append, List.length_singleton] at length
  omega

theorem newline_notMem_of_solid {w : Text} (h : Solid w) : '\n' ∉ w :=
  fun hc => absurd (h '\n' hc) (by decide)

end Text

namespace Source

open Text

variable {site : Site} {d : TypeDeclaration} {mark : Char}

/-! ### Declarations -/

/-- The texts of a method in normal form. -/
structure Method.IsTidy (mark : Char) (m : Method) : Prop where
  prototype : Tidy m.prototype
  returnType : Tidy m.returnType
  typeParameters : ∀ t ∈ m.typeParameters, Tidy t
  throws : ∀ t ∈ m.throws, Tidy t
  attributes : ∀ a ∈ m.attributes, IsAttribute mark a

/-- The texts of a constructor in normal form. -/
structure Constructor.IsTidy (mark : Char) (c : Constructor) : Prop where
  prototype : Tidy c.prototype
  typeParameters : ∀ t ∈ c.typeParameters, Tidy t
  throws : ∀ t ∈ c.throws, Tidy t
  attributes : ∀ a ∈ c.attributes, IsAttribute mark a

/-- The texts of a type in normal form, and those of its members. -/
structure TypeDeclaration.IsTidy (mark : Char) (d : TypeDeclaration) : Prop where
  name : Solid d.name
  modifiers : ∀ w ∈ d.modifiers, Solid w ∧ w ≠ []
  typeParameters : ∀ t ∈ d.typeParameters, Tidy t
  supertypes : ∀ t ∈ d.baseTypes ++ d.parents ++ d.interfaces ++ d.permitted, Tidy t
  attributes : ∀ a ∈ d.attributes, IsAttribute mark a
  methods : ∀ m ∈ d.methods, m.IsTidy mark
  constructors : ∀ c ∈ d.constructors, c.IsTidy mark

theorem Site.isTidy_methodOf {header : MemberHeader} (h : header.IsTidy) {r : Text}
    (hr : header.returnType = some r) :
    (site.methodOf header).IsTidy site.language.attributeMark where
  prototype := tidy_prototype site.language h
  returnType := by
    rw [Site.methodOf, hr, Option.getD_some]
    exact h.returnType r hr
  typeParameters := h.typeParameters
  throws := h.throws
  attributes _ := Site.isAttribute

theorem Site.isTidy_constructorOf {header : MemberHeader} (h : header.IsTidy) :
    (site.constructorOf header).IsTidy site.language.attributeMark where
  prototype := tidy_prototype site.language h
  typeParameters := h.typeParameters
  throws := h.throws
  attributes _ := Site.isAttribute

theorem Site.isTidy_of_mem_types (hd : d ∈ site.types) : d.IsTidy site.language.attributeMark := by
  rw [Site.types_eq] at hd
  obtain ⟨⟨header, index⟩, hz, rfl⟩ := List.mem_map.mp hd
  have tidy := Language.isTidy_of_mem_typeHeaders (List.fst_mem_of_mem_zipIdx hz)
  refine ⟨tidy.name, tidy.modifiers, tidy.typeParameters, tidy.supertypes, fun _ =>
    Site.isAttribute, fun m hm => ?_, fun c hc => ?_⟩
  · obtain ⟨method, held, rfl⟩ := List.mem_map.mp hm
    have read := List.mem_of_mem_filter (List.mem_of_mem_filter held)
    obtain ⟨r, hr⟩ := Language.exists_returnType read
    exact Site.isTidy_methodOf (Language.isTidy_of_mem_methodHeaders read) hr
  · obtain ⟨constructor, held, rfl⟩ := List.mem_map.mp hc
    exact Site.isTidy_constructorOf
      (Language.isTidy_of_mem_constructorHeaders (List.mem_of_mem_filter held))

/-! ### Outlines -/

theorem newline_notMem_atLine (line : Nat) : '\n' ∉ atLine line := by
  have digits : '\n' ∉ Nat.toDigits 10 line := fun hc =>
    absurd (Nat.isDigit_of_mem_toDigits (Nat.succ_pos 9) (Nat.le_refl 10) hc) (by decide)
  have word : '\n' ∉ "  (line ".toList := by decide
  change '\n' ∉ "  (line ".toList ++ Nat.toDigits 10 line ++ [')']
  simp only [List.mem_append, not_or]
  exact ⟨⟨word, digits⟩, by decide⟩

theorem TypeDeclaration.IsTidy.newline_notMem_header (h : d.IsTidy mark) : '\n' ∉ d.header := by
  have modifiers : '\n' ∉ d.modifiers.flatMap (· ++ [' ']) := fun hc => by
    obtain ⟨word, hw, hc⟩ := List.mem_flatMap.mp hc
    rcases List.mem_append.mp hc with hc | hc
    · exact newline_notMem_of_solid (h.modifiers word hw).1 hc
    · exact absurd hc (by decide)
  have keyword : '\n' ∉ d.kind.keyword := by cases d.kind <;> decide
  have parameters : '\n' ∉ d.typeParameters.getD [] := by
    cases ht : d.typeParameters with
    | none => exact List.not_mem_nil
    | some t => exact (h.typeParameters t ht).collapsed.newline_notMem
  have supertypes :
      '\n' ∉ [',', ' '].intercalate (d.baseTypes ++ d.parents ++ d.interfaces) := fun hc => by
    rcases mem_intercalate hc with hc | ⟨t, ht, hc⟩
    · exact absurd hc (by decide)
    · exact (h.supertypes t (List.mem_append_left _ ht)).collapsed.newline_notMem hc
  have space : '\n' ∉ [' '] := by decide
  have colon : '\n' ∉ [' ', ':', ' '] := by decide
  simp only [TypeDeclaration.header, List.mem_append, not_or]
  refine ⟨⟨⟨⟨⟨modifiers, keyword⟩, space⟩, newline_notMem_of_solid h.name⟩, parameters⟩, ?_⟩
  split
  · exact List.not_mem_nil
  · exact fun hc => (List.mem_append.mp hc).elim colon supertypes

/-- Each line of a type is one line. -/
theorem TypeDeclaration.IsTidy.newline_notMem (h : d.IsTidy mark) :
    ∀ line ∈ d.outlineLines, '\n' ∉ line := by
  have member {word t : Text} (hw : '\n' ∉ word) (ht : Tidy t) (line : Nat) :
      '\n' ∉ word ++ t ++ atLine line := by
    simp only [List.mem_append, not_or]
    exact ⟨⟨hw, ht.collapsed.newline_notMem⟩, newline_notMem_atLine line⟩
  intro line hl
  simp only [TypeDeclaration.outlineLines, List.mem_append, List.mem_singleton, List.mem_map] at hl
  rcases hl with ((rfl | ⟨a, ha, rfl⟩) | ⟨c, hc, rfl⟩) | ⟨m, hm, rfl⟩
  · simp only [List.mem_append, not_or]
    exact ⟨⟨by decide, h.newline_notMem_header⟩, newline_notMem_atLine d.line⟩
  · rw [List.mem_append, not_or]
    exact ⟨by decide, (h.attributes a ha).line⟩
  · exact member (by decide) (h.constructors c hc).prototype c.line
  · exact member (by decide) (h.methods m hm).prototype m.line

theorem length_outlineLines (d : TypeDeclaration) :
    d.outlineLines.length = 1 + d.attributes.length + d.constructors.length + d.methods.length := by
  simp only [TypeDeclaration.outlineLines, List.length_append, List.length_map,
    List.length_singleton]

theorem newline_notMem_scopeKey (language : Language) (path t : Text) :
    '\n' ∉ (summarize language path t).scopeKey := by
  rw [FileSummary.scopeKey]
  cases h : (summarize language path t).scope with
  | none =>
    have unnamed : '\n' ∉ language.unnamedScope := by cases language <;> decide
    exact unnamed
  | some s => exact newline_notMem_of_solid (solid_scope h)

theorem newline_notMem_outlineLines {path : Text} (language : Language)
    (hp : '\n' ∉ path) (t : Text) :
    ∀ line ∈ (summarize language path t).outlineLines, '\n' ∉ line := by
  have name : '\n' ∉ language.name := by cases language <;> decide
  have signs : '\n' ∉ " (".toList ∧ '\n' ∉ ")  scope ".toList := by decide
  refine List.forall_mem_cons.mpr ⟨?_, fun line hl => ?_⟩
  · simp only [List.mem_append, not_or]
    exact ⟨⟨⟨⟨hp, signs.1⟩, name⟩, signs.2⟩, newline_notMem_scopeKey language path t⟩
  · obtain ⟨d, hd, hl⟩ := List.mem_flatMap.mp hl
    exact (Site.isTidy_of_mem_types hd).newline_notMem line hl

/-- What is extracted from a text is in normal form, and the outline of a file has a line for the
file and one for each of its types, attributes of types, constructors and methods, if its path has
no newline. -/
theorem summarize_tidy (language : Language) (path t : Text) :
    let s := summarize language path t
    (∀ d ∈ s.types, d.IsTidy language.attributeMark) ∧
      ('\n' ∉ path → lines s.outline = s.outlineLines ++ [[]] ∧ s.outline.count '\n' =
        1 + (s.types.map fun d =>
          1 + d.attributes.length + d.constructors.length + d.methods.length).sum) := by
  intro s
  refine ⟨fun d hd => Site.isTidy_of_mem_types hd, fun hp => ?_⟩
  have whole := newline_notMem_outlineLines language hp t
  refine ⟨lines_ofLines whole, ?_⟩
  have length : s.outlineLines.length = (s.types.flatMap TypeDeclaration.outlineLines).length + 1 :=
    rfl
  rw [FileSummary.outline, count_newline_ofLines whole, length, List.length_flatMap, Nat.add_comm]
  simp only [length_outlineLines]

/-- The line breaks inside of a header do not show in the outline. -/
theorem count_newline_outline_class : '\n' ∉ "A.java".toList ∧
    (summarize .java "A.java".toList "@X\nclass A \x7b\n\tint\tf (\n) ;".toList).outline.count
      '\n' = 4 :=
  have path : '\n' ∉ "A.java".toList := by decide
  ⟨path, ((summarize_tidy .java _ _).2 path).2.trans (by decide +kernel)⟩

end Source

end SourceSurvey
