import SourceSurvey.Descriptor.Project
import SourceSurvey.Proofs.Elements

/-! What is read of a `pom.xml` descriptor, told by the places of its elements. Every part of the
coordinates is the text of the first child of its name, and the project, but none of its
dependencies, takes group and version from its parent where it has none. Modules and dependencies
are listed in document order. Only children of the root with the names that are read matter. -/

namespace SourceSurvey

open Text Xml

namespace Descriptor

/-! ### Coordinates -/

namespace Coordinates

/-- A key is there if all its parts are, and is the parts with colons between them. -/
structure HasKeys (c : Coordinates) : Prop where
  ga : ∀ key, c.ga? = some key ↔ ∃ group artifact, c.group = some group ∧
    c.artifact = some artifact ∧
    key = group ++ ':' :: artifact
  gav : ∀ key, c.gav? = some key ↔ ∃ group artifact version, c.group = some group ∧
    c.artifact = some artifact ∧
    c.version = some version ∧ key = group ++ ':' :: (artifact ++ ':' :: version)

theorem hasKeys (c : Coordinates) : c.HasKeys where
  ga key := by
    obtain ⟨_ | group, _ | artifact, version⟩ := c <;> simp [ga?, key?, List.intercalate, eq_comm]
  gav key := by
    obtain ⟨_ | group, _ | artifact, _ | version⟩ :=
      c <;> simp [gav?, key?, List.intercalate, eq_comm]

/-- Coordinates in the children of an element. -/
structure IsRead (node : Node) (c : Coordinates) : Prop where
  group : node.TextOfFirst ["groupId"] c.group
  artifact : node.TextOfFirst ["artifactId"] c.artifact
  version : node.TextOfFirst ["version"] c.version

theorem isRead_ofNode (node : Node) : (ofNode node).IsRead node :=
  ⟨Node.textOfFirst_childText? node _, Node.textOfFirst_childText? node _,
    Node.textOfFirst_childText? node _⟩

end Coordinates

/-! ### Parents and dependencies -/

structure PomParent.IsRead (node : Node) (parent : PomParent) : Prop where
  coordinates : parent.coordinates.IsRead node
  relativePath : node.TextOfFirst ["relativePath"] parent.relativePath

/-- A dependency has its own coordinates alone. -/
structure Dependency.IsRead (node : Node) (d : Dependency) : Prop where
  coordinates : d.coordinates.IsRead node
  scope : ∃ own, node.TextOfFirst ["scope"] own ∧ d.scope = own.getD "compile".toList
  kind : ∃ own, node.TextOfFirst ["type"] own ∧ d.kind = own.getD "jar".toList
  isOptional : d.isOptional = true ↔ node.TextOfFirst ["optional"] (some "true".toList)
  keys : d.coordinates.HasKeys

namespace Pom

variable {a b root : Node}

theorem isRead_parentOf (node : Node) : (parentOf node).IsRead node :=
  ⟨Coordinates.isRead_ofNode node, Node.textOfFirst_childText? node _⟩

theorem isRead_dependencyOf (node : Node) : (dependencyOf node).IsRead node where
  coordinates := Coordinates.isRead_ofNode node
  scope := ⟨_, Node.textOfFirst_childText? node _, rfl⟩
  kind := ⟨_, Node.textOfFirst_childText? node _, rfl⟩
  isOptional := by simp only [dependencyOf, Node.textOfFirst_iff, decide_eq_true_eq]
  keys := Coordinates.hasKeys _

/-! ### The whole -/

/-- The facts of a `pom.xml` descriptor with a root element. -/
structure IsRead (root : Node) (pom : Pom) : Prop where
  parent : (∃ node parent, root.IsFirst ["parent"] node ∧ pom.parent = some parent ∧
    parent.IsRead node) ∨
    pom.parent = none ∧ ∀ place node, ¬ root.Reaches ["parent"] place node
  group : ∃ own, root.TextOfFirst ["groupId"] own ∧
    pom.coordinates.group = own.or (pom.parent.bind (·.coordinates.group))
  artifact : root.TextOfFirst ["artifactId"] pom.coordinates.artifact
  version : ∃ own, root.TextOfFirst ["version"] own ∧
    pom.coordinates.version = own.or (pom.parent.bind (·.coordinates.version))
  keys : pom.coordinates.HasKeys
  name : root.TextOfFirst ["name"] pom.name
  packaging : ∃ own, root.TextOfFirst ["packaging"] own ∧ pom.packaging = own.getD "jar".toList
  modules :
    root.Lists ["modules", "module"] (fun node => ∃ v, node.HasText v) Node.HasText pom.modules
  dependencies :
    root.Lists ["dependencies", "dependency"] (fun _ => True) (fun node d => d.IsRead node)
      pom.dependencies

theorem isRead_ofRoot (path dir : Text) (root : Node) : (ofRoot path dir root).IsRead root where
  parent := by
    simp only [ofRoot, Node.child?, ← Node.elementsAt_one]
    cases first : (root.elementsAt ["parent"]).head? with
    | some node =>
        exact .inl ⟨node, parentOf node, Node.head?_elementsAt_iff.mp first, rfl,
          isRead_parentOf node⟩
    | none =>
      refine .inr ⟨rfl, fun place node reached => ?_⟩
      rw [List.head?_eq_none_iff] at first
      exact absurd (Node.mem_elementsAt_iff.mpr ⟨place, reached⟩) (by simp [first])
  group := by
    refine ⟨_, Node.textOfFirst_childText? root "groupId", ?_⟩
    simp only [ofRoot]
    cases root.child? "parent" <;> simp [Coordinates.inheriting, Coordinates.ofNode]
  artifact := by
    simp only [ofRoot]
    cases root.child? "parent" <;> exact Node.textOfFirst_childText? root "artifactId"
  version := by
    refine ⟨_, Node.textOfFirst_childText? root "version", ?_⟩
    simp only [ofRoot]
    cases root.child? "parent" <;> simp [Coordinates.inheriting, Coordinates.ofNode]
  keys := Coordinates.hasKeys _
  name := Node.textOfFirst_childText? root "name"
  packaging := ⟨_, Node.textOfFirst_childText? root "packaging", rfl⟩
  modules := by
    simp only [ofRoot, ← Node.elementsAt_two]
    refine Node.lists_filterMap (fun node => ?_) (fun _ _ => Node.text?_eq_some_iff.mp) ..
    rw [Option.isSome_iff_exists]
    simp only [Node.text?_eq_some_iff]
  dependencies := by
    simp only [ofRoot, ← Node.elementsAt_two, ← List.filterMap_eq_map]
    refine Node.lists_filterMap (fun _ => by simp) (fun node d told => ?_) ..
    exact Option.some.inj told ▸ isRead_dependencyOf node

/-! ### What does not matter -/

/-- The names of the children of the root whose texts are read. -/
def textNames : List String := ["groupId", "artifactId", "version", "name", "packaging"]

/-- The names of the children of the root that are read. -/
def readNames : List String := textNames ++ ["parent", "modules", "dependencies"]

/-- Root elements that have the same texts, the same parents and the same modules and dependencies,
one for one and in document order. -/
structure Agree (a b : Node) : Prop where
  texts : ∀ name ∈ textNames, List.Forall₂ Node.SameText (a.elementsAt [name]) (b.elementsAt [name])
  parents : List.Forall₂ (Node.SameItem ["groupId", "artifactId", "version", "relativePath"])
    (a.elementsAt ["parent"]) (b.elementsAt ["parent"])
  modules :
    List.Forall₂ Node.SameText (a.elementsAt ["modules", "module"])
      (b.elementsAt ["modules", "module"])
  dependencies :
    List.Forall₂ (Node.SameItem ["groupId", "artifactId", "version", "scope", "type", "optional"])
    (a.elementsAt ["dependencies", "dependency"]) (b.elementsAt ["dependencies", "dependency"])

theorem parentOf_congr (h : a.SameItem ["groupId", "artifactId", "version", "relativePath"] b) :
    parentOf a = parentOf b := by
  simp [parentOf, Coordinates.ofNode, h.childText?_eq]

theorem dependencyOf_congr
    (h : a.SameItem ["groupId", "artifactId", "version", "scope", "type", "optional"] b) :
    dependencyOf a = dependencyOf b := by
  simp [dependencyOf, Coordinates.ofNode, h.childText?_eq]

theorem ofRoot_congr (path dir : Text) (h : Agree a b) : ofRoot path dir a = ofRoot path dir b := by
  have parent : (a.child? "parent").map parentOf = (b.child? "parent").map parentOf := by
    rw [Node.child?,
      Node.child?, ← Node.elementsAt_one, ← Node.elementsAt_one, ← List.head?_map, ← List.head?_map,
      Node.map_congr_pairs (fun _ _ same => parentOf_congr same) h.parents]
  have modules : (a.elementsAt ["modules", "module"]).filterMap Node.text? =
      (b.elementsAt ["modules", "module"]).filterMap Node.text? :=
    Node.filterMap_congr_pairs (fun _ _ same => same.text?_eq) h.modules
  have dependencies : (a.elementsAt ["dependencies", "dependency"]).map dependencyOf =
      (b.elementsAt ["dependencies", "dependency"]).map dependencyOf :=
    Node.map_congr_pairs (fun _ _ same => dependencyOf_congr same) h.dependencies
  rw [Node.elementsAt_two, Node.elementsAt_two] at modules dependencies
  have text (name : String) (hm : name ∈ textNames) : a.childText? name = b.childText? name :=
    Node.childText?_congr (h.texts name hm)
  simp only [ofRoot, Coordinates.ofNode, parent, modules, dependencies,
    text "groupId" (by simp [textNames]),
    text "artifactId" (by simp [textNames]), text "version" (by simp [textNames]),
      text "name" (by simp [textNames]),
    text "packaging" (by simp [textNames])]

/-- Children of the root with other names do not matter. -/
theorem agree_of_elementsAt (h : ∀ name ∈ readNames, a.elementsAt [name] = b.elementsAt [name]) :
    Agree a b := by
  have same (path : List String) (name : String) (hm : name ∈ readNames) :
      a.elementsAt (name :: path) = b.elementsAt (name :: path) := by
    have children := h name hm
    rw [Node.elementsAt_one, Node.elementsAt_one] at children
    rw [Node.elementsAt, Node.elementsAt, children]
  constructor
  · intro name hm
    rw [h name (List.mem_append_left _ hm)]
    exact List.forall₂_same.mpr fun _ _ => .refl _
  · rw [h "parent" (by simp [readNames])]
    exact List.forall₂_same.mpr fun _ _ => .refl _ _
  · rw [same ["module"] "modules" (by simp [readNames])]
    exact List.forall₂_same.mpr fun _ _ => .refl _
  · rw [same ["dependency"] "dependencies" (by simp [readNames])]
    exact List.forall₂_same.mpr fun _ _ => .refl _ _

/-- A document gives the facts that its elements tell, and so does every document whose root has the
same children of the names that are read. -/
theorem exists_parse_pom (path : Text) {t : Text} {root : Node} (h : Xml.root t = .ok root) :
    ∃ pom, Project.parse .maven path t = .ok (.maven pom) ∧ pom.IsRead root ∧
      ∀ t' other, Xml.root t' = .ok other →
        (∀ name ∈ readNames, root.elementsAt [name] = other.elementsAt [name]) →
        Project.parse .maven path t' = .ok (.maven pom) := by
  refine ⟨_, by rw [Project.parse, h], isRead_ofRoot .., fun t' other h' same => ?_⟩
  rw [Project.parse, h']
  simp only [ofRoot_congr path _ (agree_of_elementsAt same)]

/-- A module that has its group and version from its parent, while its dependency has no parent to
turn to. -/
def moduleText : Text :=
  "<p><parent><groupId>g</groupId><version>1</version></parent><artifactId>a</artifactId><version> </version>".toList ++
  "<dependencies><dependency><artifactId>b</artifactId></dependency></dependencies></p>".toList

def moduleRoot : Node := .element ['p'] [] [
  .element "parent".toList [] [.element "groupId".toList [] [.text ['g']],
    .element "version".toList [] [.text ['1']]],
  .element "artifactId".toList [] [.text ['a']], .element "version".toList [] [.text [' ']],
  .element "dependencies".toList [] [
    .element "dependency".toList [] [.element "artifactId".toList [] [.text ['b']]]]]

set_option maxRecDepth 4000 in
theorem root_moduleText : Xml.root moduleText = .ok moduleRoot := (rfl)

theorem exists_parse_pom_moduleText : Xml.root moduleText = .ok moduleRoot ∧
    ∃ pom, Project.parse .maven "pom.xml".toList moduleText = .ok (.maven pom) ∧
      pom.IsRead moduleRoot ∧
      pom.coordinates.gav? = some "g:a:1".toList ∧
        pom.dependencies.map (·.coordinates.ga?) = [none] := by
  obtain ⟨pom, parsed, read, -⟩ := exists_parse_pom "pom.xml".toList root_moduleText
  refine ⟨root_moduleText, pom, parsed, read, ?_⟩
  rw [Project.parse, root_moduleText] at parsed
  cases parsed
  decide

end Pom

end Descriptor

end SourceSurvey
