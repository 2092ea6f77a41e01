import SourceSurvey.Text.Basic

/-! The two source languages and what distinguishes their files before any declaration is read:
the extension, the scope of a file that names none, the sign that opens an attribute line, and the
sign that turns a string literal into a verbatim one. -/

namespace SourceSurvey

inductive Language where
  | csharp
  | java
deriving DecidableEq, Repr

namespace Language

def all : List Language := [.csharp, .java]

def name : Language → Text
  | .csharp => "csharp".toList
  | .java => "java".toList

/-- The extension of a source file, without the dot. -/
def extension : Language → Text
  | .csharp => "cs".toList
  | .java => "java".toList

/-- The key of the files that declare no namespace or package. -/
def unnamedScope : Language → Text
  | .csharp => "(global)".toList
  | .java => "(default)".toList

/-- The first character of an attribute or annotation line. -/
def attributeMark : Language → Char
  | .csharp => '['
  | .java => '@'

/-- The character that makes the string literal after it verbatim. -/
def verbatimMark : Language → Option Char
  | .csharp => some '@'
  | .java => none

/-- The language of a file extension, in letters of either case. -/
def ofExtension? (extension : Text) : Option Language :=
  all.find? fun language => language.extension = extension.map Char.toLower

end Language

end SourceSurvey
