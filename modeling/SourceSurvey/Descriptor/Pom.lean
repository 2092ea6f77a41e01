import SourceSurvey.Xml.Document

/-! The facts of a `pom.xml` descriptor: its coordinates, of which group and version may come from
the parent, its modules and its own dependencies. A key of coordinates exists only where all of
its parts do. -/

namespace SourceSurvey.Descriptor

open Text Xml

/-- Group, artifact and version. -/
structure Coordinates where
  group : Option Text
  artifact : Option Text
  version : Option Text
deriving DecidableEq, Repr

namespace Coordinates

/-- The parts with colons between them, if all are there. -/
def key? (parts : List (Option Text)) : Option Text :=
  if parts.all Option.isSome then some ([':'].intercalate (parts.filterMap id)) else none

/-- Group and artifact. -/
def ga? (c : Coordinates) : Option Text := key? [c.group, c.artifact]

/-- Group, artifact and version. -/
def gav? (c : Coordinates) : Option Text := key? [c.group, c.artifact, c.version]

/-- The coordinates in the direct children of an element. -/
def ofNode (node : Node) : Coordinates :=
  ⟨node.childText? "groupId", node.childText? "artifactId", node.childText? "version"⟩

/-- Group and version fall back to those of a parent. -/
def inheriting (own : Coordinates) : Option Coordinates → Coordinates
  | none => own
  | some parent => ⟨own.group.or parent.group, own.artifact, own.version.or parent.version⟩

end Coordinates

structure PomParent where
  coordinates : Coordinates
  relativePath : Option Text
deriving DecidableEq, Repr

structure Dependency where
  coordinates : Coordinates
  scope : Text
  kind : Text
  isOptional : Bool
deriving DecidableEq, Repr

structure Pom where
  path : Text
  dir : Text
  coordinates : Coordinates
  name : Option Text
  packaging : Text
  parent : Option PomParent
  modules : List Text
  dependencies : List Dependency
deriving DecidableEq, Repr

namespace Pom

def defaultPackaging : Text := "jar".toList

def defaultScope : Text := "compile".toList

def defaultKind : Text := "jar".toList

def parentOf (node : Node) : PomParent := ⟨Coordinates.ofNode node, node.childText? "relativePath"⟩

def dependencyOf (node : Node) : Dependency where
  coordinates := Coordinates.ofNode node
  scope := (node.childText? "scope").getD defaultScope
  kind := (node.childText? "type").getD defaultKind
  isOptional := node.childText? "optional" = some "true".toList

/-- The facts of a descriptor at a path in a directory. -/
def ofRoot (path dir : Text) (root : Node) : Pom :=
  let parent := (root.child? "parent").map parentOf
  { path := path
    dir := dir
    coordinates := (Coordinates.ofNode root).inheriting (parent.map (·.coordinates))
    name := root.childText? "name"
    packaging := (root.childText? "packaging").getD defaultPackaging
    parent := parent
    modules :=
      ((root.childrenNamed "modules").flatMap (·.childrenNamed "module")).filterMap Node.text?
    dependencies :=
      ((root.childrenNamed "dependencies").flatMap (·.childrenNamed "dependency")).map
        dependencyOf }

end Pom

end SourceSurvey.Descriptor
