import SourceSurvey.Source.Language

/-! The build ecosystems: how their descriptors are named, what language they compile, where their
sources lie and which directories hold build output. -/

namespace SourceSurvey

inductive Ecosystem where
  | dotnet
  | maven
deriving DecidableEq, Repr

namespace Ecosystem

def all : List Ecosystem := [.dotnet, .maven]

def name : Ecosystem → Text
  | .dotnet => "dotnet".toList
  | .maven => "maven".toList

/-- Every word that stands for an ecosystem. -/
def words : Ecosystem → List Text
  | .dotnet => ["dotnet".toList, ".net".toList, "csharp".toList]
  | .maven => ["maven".toList, "java".toList]

/-- The ecosystem of a word in letters of either case. -/
def ofWord? (word : Text) : Option Ecosystem :=
  all.find? fun ecosystem => ecosystem.words.contains (word.map Char.toLower)

/-- Whether a file name is that of a descriptor; the ending `.csproj` may be of either case. -/
def isDescriptor : Ecosystem → Text → Bool
  | .dotnet, fileName => ".csproj".toList.isSuffixOf (fileName.map Char.toLower)
  | .maven, fileName => fileName = "pom.xml".toList

def language : Ecosystem → Language
  | .dotnet => .csharp
  | .maven => .java

/-- The directories of a project that hold its sources; none stands for the whole project. -/
def sourceRoots : Ecosystem → List Text
  | .dotnet => []
  | .maven => ["src/main/java".toList, "src/test/java".toList]

/-- The names of directories that hold build output. -/
def outputDirs : Ecosystem → List Text
  | .dotnet => ["bin".toList, "obj".toList]
  | .maven => []

/-- Where ecosystems of one path come in a list. -/
def le : Ecosystem → Ecosystem → Bool
  | .maven, .dotnet => false
  | _, _ => true

end Ecosystem

end SourceSurvey
