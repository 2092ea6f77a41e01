import SourceSurvey.Source.Language

/-! What is reported about a source file: its scope and its type declarations, each with the
methods and constructors that belong to it. Every fact is read off the text alone. -/

namespace SourceSurvey.Source

inductive TypeKind where
  | classType
  | interfaceType
  | structType
  | enumType
  | recordType
  | annotationType
deriving DecidableEq, Repr

namespace TypeKind

def all : List TypeKind :=
  [.classType, .interfaceType, .structType, .enumType, .recordType, .annotationType]

/-- The word that declares a type of this kind. -/
def keyword : TypeKind → Text
  | .classType => "class".toList
  | .interfaceType => "interface".toList
  | .structType => "struct".toList
  | .enumType => "enum".toList
  | .recordType => "record".toList
  | .annotationType => "@interface".toList

/-- The name under which a kind is reported. -/
def name : TypeKind → Text
  | .annotationType => "annotation_type".toList
  | kind => kind.keyword

def ofKeyword? (word : Text) : Option TypeKind := all.find? fun kind => kind.keyword = word

theorem ofKeyword?_keyword (kind : TypeKind) : ofKeyword? kind.keyword = some kind := by
  cases kind <;> decide

end TypeKind

/-- A parameter: its text, and what could be told apart in it. -/
structure Parameter where
  raw : Text
  typeName : Option Text
  name : Option Text
  variadic : Bool
  modifiers : List Text
  attributes : List Text
deriving DecidableEq, Repr

structure Method where
  name : Text
  modifiers : List Text
  typeParameters : Option Text
  returnType : Text
  parameters : List Parameter
  throws : List Text
  attributes : List Text
  prototype : Text
  line : Nat
deriving DecidableEq, Repr

structure Constructor where
  name : Text
  modifiers : List Text
  typeParameters : Option Text
  parameters : List Parameter
  throws : List Text
  attributes : List Text
  prototype : Text
  line : Nat
deriving DecidableEq, Repr

structure TypeDeclaration where
  kind : TypeKind
  name : Text
  modifiers : List Text
  typeParameters : Option Text
  baseTypes : List Text
  parents : List Text
  interfaces : List Text
  permitted : List Text
  recordComponents : List Parameter
  attributes : List Text
  methods : List Method
  constructors : List Constructor
  line : Nat
deriving DecidableEq, Repr

/-- The declarations of one file, or the reason why it could not be read. -/
structure FileSummary where
  path : Text
  language : Language
  scope : Option Text
  types : List TypeDeclaration
  error : Option Text
deriving DecidableEq, Repr

namespace FileSummary

/-- The summary of a file that could not be read. -/
def failed (path : Text) (language : Language) (reason : Text) : FileSummary :=
  ⟨path, language, none, [], some reason⟩

/-- The key under which files of one scope are grouped. -/
def scopeKey (summary : FileSummary) : Text := summary.scope.getD summary.language.unnamedScope

end FileSummary

end SourceSurvey.Source
