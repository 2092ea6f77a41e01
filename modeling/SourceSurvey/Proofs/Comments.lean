import SourceSurvey.Proofs.CsprojFacts
import SourceSurvey.Proofs.PomFacts
import Mathlib.Logic.Relation

/-! Comments in descriptors. Elements are looked up among the elements, so it does not matter to
them what else stands between these. A text is read only where an element begins with it, so a
comment in front of it hides it, and at every other place comments do not matter. -/

namespace SourceSurvey

open Text Xml

namespace Xml.Node

/-! ### Other children -/

/-- Two trees that differ in the children of one element. -/
inductive Edited (Edit : List Node → List Node → Prop) : Node → Node → Prop
  | here (name : Text) (attributes : List Attribute) {children children' : List Node} :
      Edit children children' →
    Edited Edit (.element name attributes children) (.element name attributes children')
  | within (name : Text) (attributes : List Attribute) (before after : List Node)
      {child child' : Node} :
    Edited Edit child child' →
    Edited Edit (.element name attributes (before ++ child :: after))
      (.element name attributes (before ++ child' :: after))

/-- Children with the same text in front and the same elements. -/
structure ReadAlike (children children' : List Node) : Prop where
  text : ∀ v, BeginWith children v ↔ BeginWith children' v
  elements : children.filter isElement = children'.filter isElement

variable {Edit : List Node → List Node → Prop} {a b child : Node}
  {before rest rest' : List Node} {v : Text}

theorem beginWith_cons : BeginWith (child :: rest) v ↔ ∃ t, child = .text t ∧
    v = trim t ∧ v ≠ [] := by
  constructor
  · rintro ⟨t, _, same, told⟩
    exact ⟨t, (List.cons.inj same).1, told⟩
  · rintro ⟨t, rfl, told⟩
    exact ⟨t, rest, rfl, told⟩

theorem not_beginWith_cons (h : ∀ t, child ≠ .text t) : ¬ BeginWith (child :: rest) v := by
  rw [beginWith_cons]
  rintro ⟨t, same, -⟩
  exact h t same

/-- What stands behind the first child does not matter to the text in front. -/
theorem beginWith_append (h : before ≠ []) :
    BeginWith (before ++ rest) v ↔ BeginWith (before ++ rest') v := by
  cases before with
  | nil => exact absurd rfl h
  | cons child before => rw [List.cons_append, List.cons_append, beginWith_cons, beginWith_cons]

theorem childrenNamed_eq (node : Node) (name : String) : node.childrenNamed name =
    (node.children.filter isElement).filter fun child => child.name? = some name.toList := by
  rw [childrenNamed, List.filter_filter]
  refine List.filter_congr fun child _ => ?_
  cases child <;> simp [isElement, name?]

theorem Edited.ne_text (h : Edited Edit a b) (t : Text) : a ≠ .text t ∧ b ≠ .text t := by
  cases h <;> exact ⟨nofun, nofun⟩

theorem Edited.name?_eq (h : Edited Edit a b) : a.name? = b.name? := by
  cases h <;> rfl

theorem Edited.attributes_eq (h : Edited Edit a b) : a.attributes = b.attributes := by
  cases h <;> rfl

section

variable (quiet : ∀ children children', Edit children children' → ReadAlike children children')
  (h : Edited Edit a b)

include quiet h

theorem Edited.sameText : a.SameText b := by
  cases h with
  | here name attributes edit => exact (quiet _ _ edit).text
  | within name attributes before after inner =>
    intro v
    cases before with
    | nil =>
      exact iff_of_false (not_beginWith_cons fun t => (inner.ne_text t).1)
        (not_beginWith_cons fun t => (inner.ne_text t).2)
    | cons first before => exact beginWith_append (List.cons_ne_nil first before)

/-- The children of a name pair up, and at most one pair differs. -/
theorem Edited.forall₂_childrenNamed (name : String) :
    List.Forall₂ (Relation.ReflGen (Edited Edit)) (a.childrenNamed name)
      (b.childrenNamed name) := by
  cases h with
  | here own attributes edit =>
    rw [childrenNamed_eq, childrenNamed_eq, children, children, (quiet _ _ edit).elements]
    exact List.forall₂_same.mpr fun _ _ => .refl
  | within own attributes before after inner =>
    have pairs :
        List.Forall₂ (Relation.ReflGen (Edited Edit)) (before ++ _ :: after)
          (before ++ _ :: after) :=
      List.rel_append (List.forall₂_same.mpr fun _ _ => .refl)
        (.cons (.single inner) (List.forall₂_same.mpr fun _ _ => .refl))
    refine List.rel_filter (fun c d hcd => ?_) pairs
    cases hcd with
    | refl => exact Iff.rfl
    | single edited => simp only [edited.name?_eq]

end

/-! ### The elements of edited trees -/

section

variable (quiet : ∀ children children', Edit children children' → ReadAlike children children')
  (h : Relation.ReflGen (Edited Edit) a b)

include quiet h

theorem sameText_of_edited : a.SameText b := by
  cases h with
  | refl => exact .refl a
  | single edited => exact edited.sameText quiet

theorem forall₂_elementsAt (path : List String) :
    List.Forall₂ (Relation.ReflGen (Edited Edit)) (a.elementsAt path) (b.elementsAt path) := by
  induction path generalizing a b with
  | nil => exact .cons h .nil
  | cons name path ih =>
    have children :
        List.Forall₂ (Relation.ReflGen (Edited Edit)) (a.childrenNamed name)
          (b.childrenNamed name) := by
      cases h with
      | refl => exact List.forall₂_same.mpr fun _ _ => .refl
      | single edited => exact edited.forall₂_childrenNamed quiet name
    exact List.rel_flatMap children fun c d hcd => ih hcd

theorem forall₂_sameText (path : List String) :
    List.Forall₂ SameText (a.elementsAt path) (b.elementsAt path) :=
  (forall₂_elementsAt quiet h path).imp fun _ _ => sameText_of_edited quiet

theorem sameItem_of_edited (names : List String) : a.SameItem names b := by
  refine ⟨fun name v => ?_, fun name _ => forall₂_sameText quiet h [name]⟩
  cases h with
  | refl => exact Iff.rfl
  | single edited => rw [HasAttribute, HasAttribute, edited.attributes_eq]

theorem forall₂_sameItem (names path : List String) :
    List.Forall₂ (SameItem names) (a.elementsAt path) (b.elementsAt path) :=
  (forall₂_elementsAt quiet h path).imp fun _ _ hcd => sameItem_of_edited quiet hcd names

end

/-! ### Comments -/

/-- A comment that is not in front of a text with which the children begin. -/
def CommentAdded (children children' : List Node) : Prop :=
  ∃ before after, children = before ++ after ∧ children' = before ++ .comment :: after ∧
    (before = [] → ∀ v, ¬ BeginWith after v)

/-- A comment and a text behind it, in front of all children. -/
def TextHidden (children children' : List Node) : Prop :=
  ∃ t, children' = .comment :: .text t :: children ∧ ∀ v, ¬ BeginWith children v

theorem CommentAdded.readAlike {children children' : List Node}
    (h : CommentAdded children children') :
    ReadAlike children children' := by
  obtain ⟨before, after, rfl, rfl, front⟩ := h
  constructor
  · intro v
    by_cases first : before = []
    · subst first
      exact iff_of_false (front rfl v) (not_beginWith_cons nofun)
    · exact beginWith_append first
  · rw [List.filter_append, List.filter_append, List.filter_cons_of_neg (by simp [isElement])]

theorem TextHidden.readAlike {children children' : List Node} (h : TextHidden children children') :
    ReadAlike children children' := by
  obtain ⟨t, rfl, front⟩ := h
  constructor
  · exact fun v => iff_of_false (front v) (not_beginWith_cons nofun)
  · rw [List.filter_cons_of_neg (by simp [isElement]),
      List.filter_cons_of_neg (by simp [isElement])]

end Xml.Node

/-! ### Descriptors -/

open Descriptor

section

variable {Edit : List Node → List Node → Prop} {root root' : Node}
  (quiet : ∀ children children', Edit children children' → Node.ReadAlike children children')
  (h : root.Edited Edit root')

include quiet h

theorem Descriptor.Csproj.agree_of_edited : Csproj.Agree root root' :=
  ⟨fun _ _ => Node.forall₂_sameText quiet (.single h) _,
    Node.forall₂_sameItem quiet (.single h) _ _, Node.forall₂_sameItem quiet (.single h) _ _⟩

theorem Descriptor.Pom.agree_of_edited : Pom.Agree root root' :=
  ⟨fun _ _ => Node.forall₂_sameText quiet (.single h) _,
    Node.forall₂_sameItem quiet (.single h) _ _,
    Node.forall₂_sameText quiet (.single h) _, Node.forall₂_sameItem quiet (.single h) _ _⟩

theorem Project.parse_edited (ecosystem : Ecosystem) (path : Text) {t t' : Text}
    (ht : Xml.root t = .ok root) (ht' : Xml.root t' = .ok root') :
    Project.parse ecosystem path t' = Project.parse ecosystem path t := by
  rw [Project.parse, Project.parse, ht, ht']
  cases ecosystem with
  | dotnet => simp only [Csproj.ofRoot_congr path _ (Csproj.agree_of_edited quiet h)]
  | maven => simp only [Pom.ofRoot_congr path _ (Pom.agree_of_edited quiet h)]

end

namespace Project

/-- A comment changes nothing in a descriptor, unless it stands in front of a text with which an
element begins. Then the text might as well not be there. -/
theorem parse_commented (ecosystem : Ecosystem) (path : Text) {t t' : Text} {root root' : Node}
    (ht : Xml.root t = .ok root) (ht' : Xml.root t' = .ok root')
    (h : root.Edited Node.CommentAdded root' ∨ root.Edited Node.TextHidden root') :
    parse ecosystem path t' = parse ecosystem path t := by
  rcases h with added | hidden
  · exact parse_edited (fun _ _ => Node.CommentAdded.readAlike) added ecosystem path ht ht'
  · exact parse_edited (fun _ _ => Node.TextHidden.readAlike) hidden ecosystem path ht ht'

/-- A property in two parts, the text of the property at the front of the second. -/
def propertyFront : Text := "<P><PropertyGroup><AssemblyName>".toList

def propertyRest : Text := "A</AssemblyName></PropertyGroup></P>".toList

def commentText : Text := "<!-- c -->".toList

def propertyRoot (children : List Node) : Node := .element ['P'] [] [
  .element "PropertyGroup".toList [] [.element "AssemblyName".toList [] children]]

theorem root_property :
    Xml.root (propertyFront ++ propertyRest) = .ok (propertyRoot [.text ['A']]) := (rfl)

set_option maxRecDepth 4000 in
theorem root_commentedFront : Xml.root (propertyFront ++ commentText ++ propertyRest) =
    .ok (propertyRoot [.comment, .text ['A']]) := (rfl)

set_option maxRecDepth 4000 in
theorem root_commentedBehind :
    Xml.root (propertyFront ++ ['A'] ++ commentText ++ propertyRest.drop 1) =
    .ok (propertyRoot [.text ['A'], .comment]) := (rfl)

/-- A comment just behind the text of a property. -/
theorem parse_commented_behind :
    (propertyRoot [.text ['A']]).Edited Node.CommentAdded (propertyRoot [.text ['A'], .comment]) ∧
    parse .dotnet "T.csproj".toList (propertyFront ++ ['A'] ++ commentText ++ propertyRest.drop 1) =
      parse .dotnet "T.csproj".toList (propertyFront ++ propertyRest) := by
  have added : Node.CommentAdded [.text ['A']] [.text ['A'], .comment] :=
    ⟨[.text ['A']], [], rfl, rfl, nofun⟩
  have edited := Node.Edited.within ['P'] [] [] [] (.within "PropertyGroup".toList [] [] []
    (.here "AssemblyName".toList [] added))
  exact ⟨edited, parse_commented .dotnet _ root_property root_commentedBehind (.inl edited)⟩

/-- A comment just in front of the text of a property takes the text away. -/
theorem exists_text_hidden : (propertyRoot [.text ['A']]).Edited
      (fun children children' => ∃ before after, children = before ++ after ∧
        children' = before ++ .comment :: after)
      (propertyRoot [.comment, .text ['A']]) ∧
    parse .dotnet "T.csproj".toList (propertyFront ++ commentText ++ propertyRest) ≠
      parse .dotnet "T.csproj".toList (propertyFront ++ propertyRest) := by
  constructor
  · exact .within ['P'] [] [] []
      (.within "PropertyGroup".toList [] [] [] (.here "AssemblyName".toList []
      ⟨[], [.text ['A']], rfl, rfl⟩))
  · rw [parse, parse, root_commentedFront, root_property]
    intro same
    cases same

end Project

end SourceSurvey
