import SourceSurvey.Descriptor.Project
import SourceSurvey.Proofs.Elements
import SourceSurvey.Proofs.PathOrder
import SourceSurvey.Proofs.Segments

/-! What is read of a `.csproj` descriptor, told by the places of its elements. A property is the
text of the first element at its path that has one, wherever in the property groups that stands, and
the frameworks are those of two properties in order. Every item with an include is listed in
document order. Documents that have the same properties and items, whatever else they hold, have the
same facts. -/

namespace SourceSurvey

open Text Xml

namespace Descriptor

/-! ### Items -/

/-- Whether a reference is what an item tells. -/
structure ProjectReference.IsRead (item : Node) (r : ProjectReference) : Prop where
  included : item.HasAttribute "Include" r.included
  name : item.TextOfFirst ["Name"] r.name
  guid : item.TextOfFirst ["Project"] r.guid

/-- The version stands in an attribute or else in the first child of that name. -/
structure PackageReference.IsRead (item : Node) (r : PackageReference) : Prop where
  name : item.HasAttribute "Include" r.name
  version : ∀ v, r.version = some v ↔ item.HasAttribute "Version" v ∨
    (∀ w, ¬ item.HasAttribute "Version" w) ∧ ∃ child, item.IsFirst ["Version"] child ∧
      child.HasText v

namespace Csproj

variable {item a b root : Node}

/-- Whether something is left of the include of an item. -/
def Includes (item : Node) : Prop := ∃ v, item.HasAttribute "Include" v

theorem isSome_map_include {α : Type} {f : Text → α} :
    ((item.attribute? "Include").map f).isSome = true ↔ Includes item := by
  rw [Option.isSome_map, Option.isSome_iff_exists]
  simp only [Node.attribute?_eq_some_iff, Includes]

theorem isRead_projectReference? {r : ProjectReference} (h : projectReference? item = some r) :
    r.IsRead item := by
  obtain ⟨included, told, rfl⟩ := Option.map_eq_some_iff.mp h
  exact ⟨Node.attribute?_eq_some_iff.mp told, Node.textOfFirst_childText? item _,
    Node.textOfFirst_childText? item _⟩

theorem isRead_packageReference? {r : PackageReference} (h : packageReference? item = some r) :
    r.IsRead item := by
  obtain ⟨name, told, rfl⟩ := Option.map_eq_some_iff.mp h
  refine ⟨Node.attribute?_eq_some_iff.mp told, fun v => ?_⟩
  rw [Option.or_eq_some_iff, Option.eq_none_iff_forall_ne_some,
    Node.textOfFirst_childText? item "Version" v]
  simp only [ne_eq, Node.attribute?_eq_some_iff]

/-! ### Properties -/

theorem property?_eq (root : Node) (name : String) :
    property? root name = (root.elementsAt ["PropertyGroup", name]).findSome? Node.text? := by
  rw [Node.elementsAt_two, property?]

theorem property?_eq_iff {name : String} {value : Option Text} :
    property? root name = value ↔ root.FirstText ["PropertyGroup", name] value := by
  rw [property?_eq, Node.firstText_iff]

theorem mem_frameworks {one several : Option Text} {f : Text} : f ∈ frameworks one several ↔
    one = some f ∨ ∃ t piece, several = some t ∧ IsPiece (· = ';') t piece ∧
      f = trim piece ∧ f ≠ [] := by
  rw [frameworks, mem_sortedDistinct, List.mem_append, Option.mem_toList,
    List.mem_filter, List.mem_map]
  refine or_congr Iff.rfl ?_
  cases several with
  | none => simp
  | some t =>
    simp only [Option.map_some, Option.getD_some, mem_splitAll_iff, decide_eq_true_eq,
      Option.some_inj]
    constructor
    · rintro ⟨⟨piece, cut, rfl⟩, left⟩
      exact ⟨t, piece, rfl, cut, rfl, left⟩
    · rintro ⟨_, piece, rfl, cut, rfl, left⟩
      exact ⟨⟨piece, cut, rfl⟩, left⟩

theorem pairwise_frameworks (one several : Option Text) :
    (frameworks one several).Pairwise fun f g => Text.le f g = true ∧ f ≠ g :=
  pairwise_sortedDistinct Text.le_total (fun _ _ _ => Text.le_trans) fun _ _ _ _ => Text.le_antisymm

/-! ### The whole -/

/-- The facts of a `.csproj` descriptor with a root element. -/
structure IsRead (root : Node) (p : Csproj) : Prop where
  assemblyName : root.FirstText ["PropertyGroup", "AssemblyName"] p.assemblyName
  rootNamespace : root.FirstText ["PropertyGroup", "RootNamespace"] p.rootNamespace
  outputType : root.FirstText ["PropertyGroup", "OutputType"] p.outputType
  increasing : p.targetFrameworks.Pairwise fun f g => Text.le f g = true ∧ f ≠ g
  mem_targetFrameworks : ∀ f, f ∈ p.targetFrameworks ↔
    root.FirstText ["PropertyGroup", "TargetFramework"] (some f) ∨
    ∃ several piece, root.FirstText ["PropertyGroup", "TargetFrameworks"] (some several) ∧
      IsPiece (· = ';') several piece ∧ f = trim piece ∧ f ≠ []
  projectReferences :
    root.Lists ["ItemGroup", "ProjectReference"] Includes (fun item r => r.IsRead item)
    p.projectReferences
  packageReferences :
    root.Lists ["ItemGroup", "PackageReference"] Includes (fun item r => r.IsRead item)
    p.packageReferences

/-- The names of the properties that are read. -/
def propertyNames : List String :=
  ["AssemblyName", "RootNamespace", "OutputType", "TargetFramework", "TargetFrameworks"]

/-- Root elements that have the same properties and the same items, one for one and in document
order. -/
structure Agree (a b : Node) : Prop where
  properties : ∀ name ∈ propertyNames,
    List.Forall₂ Node.SameText (a.elementsAt ["PropertyGroup", name])
      (b.elementsAt ["PropertyGroup", name])
  projectReferences : List.Forall₂ (Node.SameItem ["Name", "Project"])
    (a.elementsAt ["ItemGroup", "ProjectReference"])
      (b.elementsAt ["ItemGroup", "ProjectReference"])
  packageReferences : List.Forall₂ (Node.SameItem ["Version"])
    (a.elementsAt ["ItemGroup", "PackageReference"])
      (b.elementsAt ["ItemGroup", "PackageReference"])

theorem items_eq (root : Node) (name : String) :
    items root name = root.elementsAt ["ItemGroup", name] := by
  rw [Node.elementsAt_two, items]

theorem isRead_ofRoot (path dir : Text) (root : Node) : (ofRoot path dir root).IsRead root where
  assemblyName := property?_eq_iff.mp rfl
  rootNamespace := property?_eq_iff.mp rfl
  outputType := property?_eq_iff.mp rfl
  increasing := pairwise_frameworks ..
  mem_targetFrameworks f := by
    simp only [ofRoot, mem_frameworks, property?_eq_iff]
  projectReferences := by
    simp only [ofRoot, items_eq]
    exact Node.lists_filterMap (fun _ => isSome_map_include)
      (fun _ _ => isRead_projectReference?) ..
  packageReferences := by
    simp only [ofRoot, items_eq]
    exact Node.lists_filterMap (fun _ => isSome_map_include)
      (fun _ _ => isRead_packageReference?) ..

theorem ofRoot_congr (path dir : Text) (h : Agree a b) : ofRoot path dir a = ofRoot path dir b := by
  have property (name : String) (hm : name ∈ propertyNames) :
      property? a name = property? b name := by
    rw [property?_eq, property?_eq, Node.findSome?_text?_congr (h.properties name hm)]
  have references : (items a "ProjectReference").filterMap projectReference? =
      (items b "ProjectReference").filterMap projectReference? := by
    rw [items_eq, items_eq]
    refine Node.filterMap_congr_pairs (fun c d same => ?_) h.projectReferences
    simp [projectReference?, same.attribute?_eq, same.childText?_eq]
  have packages : (items a "PackageReference").filterMap packageReference? =
      (items b "PackageReference").filterMap packageReference? := by
    rw [items_eq, items_eq]
    refine Node.filterMap_congr_pairs (fun c d same => ?_) h.packageReferences
    simp [packageReference?, same.attribute?_eq, same.childText?_eq]
  simp only [ofRoot, references, packages, property "AssemblyName" (by simp [propertyNames]),
    property "RootNamespace" (by simp [propertyNames]),
      property "OutputType" (by simp [propertyNames]),
    property "TargetFramework" (by simp [propertyNames]),
      property "TargetFrameworks" (by simp [propertyNames])]

/-- A document gives the facts that its elements tell, and so does every document with the same
properties and items, whatever other elements it has. -/
theorem exists_parse_csproj (path : Text) {t : Text} {root : Node} (h : Xml.root t = .ok root) :
    ∃ p, Project.parse .dotnet path t = .ok (.dotnet p) ∧ p.IsRead root ∧
      ∀ t' other, Xml.root t' = .ok other → Agree root other →
        Project.parse .dotnet path t' = .ok (.dotnet p) := by
  refine ⟨_, by rw [Project.parse, h], isRead_ofRoot .., fun t' other h' same => ?_⟩
  rw [Project.parse, h']
  simp only [ofRoot_congr path _ same]

/-- The first output type is blank. -/
def toolText : Text :=
  "<P><PropertyGroup><OutputType> </OutputType><OutputType>Exe</OutputType></PropertyGroup>".toList ++
  "<ItemGroup><PackageReference Include='L'/></ItemGroup></P>".toList

/-- The same with a property group that is no child of the root, and another property. -/
def targetText : Text :=
  "<P><Target><PropertyGroup/></Target><PropertyGroup><OutputType/><Title>T</Title></PropertyGroup>".toList ++
  "<PropertyGroup><OutputType>Exe</OutputType></PropertyGroup>".toList ++
  "<ItemGroup><PackageReference Include='L'/></ItemGroup></P>".toList

def groupNode (children : List Node) : Node := .element "PropertyGroup".toList [] children

def outputNode (children : List Node) : Node := .element "OutputType".toList [] children

def itemsNode : Node :=
  .element "ItemGroup".toList []
    [.element "PackageReference".toList [⟨none, "Include".toList, ['L']⟩] []]

def toolRoot : Node :=
  .element ['P'] []
    [groupNode [outputNode [.text [' ']], outputNode [.text "Exe".toList]], itemsNode]

def targetRoot : Node := .element ['P'] [] [
  .element "Target".toList [] [groupNode []],
    groupNode [outputNode [], .element "Title".toList [] [.text ['T']]],
  groupNode [outputNode [.text "Exe".toList]], itemsNode]

set_option maxRecDepth 8000 in
theorem root_toolText : Xml.root toolText = .ok toolRoot := (rfl)

set_option maxRecDepth 8000 in
theorem root_targetText : Xml.root targetText = .ok targetRoot := (rfl)

theorem agree_toolRoot : Agree toolRoot targetRoot := by
  have blank : (outputNode [.text [' ']]).SameText (outputNode []) := by
    intro v
    rw [← Node.text?_eq_some_iff, ← Node.text?_eq_some_iff]
    exact Iff.rfl
  constructor
  · intro name hm
    simp only [propertyNames, List.mem_cons, List.not_mem_nil, or_false] at hm
    rcases hm with rfl | rfl | rfl | rfl | rfl
    · exact .nil
    · exact .nil
    · exact .cons blank (.cons (.refl _) .nil)
    · exact .nil
    · exact .nil
  · exact .nil
  · exact .cons (.refl _ _) .nil

theorem exists_parse_csproj_toolText :
    Xml.root toolText = .ok toolRoot ∧ Xml.root targetText = .ok targetRoot ∧
    Agree toolRoot targetRoot ∧
      ∃ p, Project.parse .dotnet "T.csproj".toList toolText = .ok (.dotnet p) ∧
      p.IsRead toolRoot ∧ Project.parse .dotnet "T.csproj".toList targetText = .ok (.dotnet p) ∧
      p.outputType = some "Exe".toList ∧ p.packageReferences = [⟨['L'], none⟩] := by
  obtain ⟨p, parsed, read, same⟩ := exists_parse_csproj "T.csproj".toList root_toolText
  refine ⟨root_toolText, root_targetText, agree_toolRoot, p, parsed, read,
    same _ _ root_targetText agree_toolRoot, ?_⟩
  rw [Project.parse, root_toolText] at parsed
  cases parsed
  decide

end Csproj

end Descriptor

end SourceSurvey
