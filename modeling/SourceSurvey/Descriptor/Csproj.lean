import SourceSurvey.Xml.Document

/-! The facts of a `.csproj` descriptor. Properties are read over all top-level property groups,
and the first one with a text wins; references are read over all top-level item groups. -/

namespace SourceSurvey.Descriptor

open Text Xml

structure ProjectReference where
  /-- The path as it is written. -/
  included : Text
  name : Option Text
  guid : Option Text
deriving DecidableEq, Repr

structure PackageReference where
  name : Text
  version : Option Text
deriving DecidableEq, Repr

structure Csproj where
  path : Text
  dir : Text
  assemblyName : Option Text
  rootNamespace : Option Text
  /-- In increasing order, each once. -/
  targetFrameworks : List Text
  outputType : Option Text
  projectReferences : List ProjectReference
  packageReferences : List PackageReference
deriving DecidableEq, Repr

namespace Csproj

/-- The first text of a property. -/
def property? (root : Node) (name : String) : Option Text :=
  ((root.childrenNamed "PropertyGroup").flatMap (·.childrenNamed name)).findSome? Node.text?

/-- One framework, and the several that semicolons separate. -/
def frameworks (one several : Option Text) : List Text :=
  let pieces := (several.map (splitAll (· = ';'))).getD []
  sortedDistinct Text.le (one.toList ++ (pieces.map trim).filter (· ≠ []))

def items (root : Node) (name : String) : List Node :=
  (root.childrenNamed "ItemGroup").flatMap (·.childrenNamed name)

/-- An item counts only if it includes something. -/
def projectReference? (item : Node) : Option ProjectReference :=
  (item.attribute? "Include").map fun included =>
    ⟨included, item.childText? "Name", item.childText? "Project"⟩

def packageReference? (item : Node) : Option PackageReference :=
  (item.attribute? "Include").map fun name =>
    ⟨name, (item.attribute? "Version").or (item.childText? "Version")⟩

/-- The facts of a descriptor at a path in a directory. -/
def ofRoot (path dir : Text) (root : Node) : Csproj where
  path := path
  dir := dir
  assemblyName := property? root "AssemblyName"
  rootNamespace := property? root "RootNamespace"
  targetFrameworks :=
    frameworks (property? root "TargetFramework") (property? root "TargetFrameworks")
  outputType := property? root "OutputType"
  projectReferences := (items root "ProjectReference").filterMap projectReference?
  packageReferences := (items root "PackageReference").filterMap packageReference?

end Csproj

end SourceSurvey.Descriptor
