import SourceSurvey.Source.Grammar
import SourceSurvey.Source.Mask
import SourceSurvey.Source.Place

/-! The summary of a source text. Headers are read off the masked text; every member goes to the
last type that starts at or before it. A method header that reads like a statement is dropped, and
so is a constructor header that is not named after its type or that reads like an object
creation. -/

namespace SourceSurvey.Source

open Text

/-- Words that start statements or expressions. -/
def statementWords : List Text :=
  ["if".toList, "else".toList, "for".toList, "foreach".toList, "while".toList, "do".toList,
    "switch".toList, "case".toList, "catch".toList, "try".toList, "finally".toList,
    "using".toList, "lock".toList, "fixed".toList, "return".toList, "throw".toList, "new".toList,
    "await".toList, "yield".toList, "goto".toList, "typeof".toList, "sizeof".toList,
    "nameof".toList, "checked".toList, "unchecked".toList, "synchronized".toList,
    "assert".toList, "delegate".toList, "class".toList, "interface".toList, "struct".toList,
    "enum".toList, "record".toList, "operator".toList]

/-- A header reads like a statement when its name or a word of its return type starts one, or when
its return type has no word but modifiers. -/
def isStatementLike (methodModifiers : List Text) (header : MemberHeader) : Bool :=
  statementWords.contains header.name ||
    match header.returnType with
    | none => false
    | some returnType =>
      let typeWords := words returnType
      typeWords.isEmpty || typeWords.any statementWords.contains || typeWords.all
        methodModifiers.contains

/-- Words that cannot stand directly before the name of a constructor. -/
def creationWords : List Text :=
  ["new".toList, "return".toList, "throw".toList, "await".toList, "class".toList,
    "struct".toList, "interface".toList, "enum".toList, "record".toList]

/-- The run of letters, numbers and underscores directly before a place. -/
def wordBefore (before : Text) : Text :=
  (before.takeWhile fun c => isAlphanumeric c || c = '_').reverse

/-- A header reads like an object creation or a call when the last thing before it is a dot or one
of the creation words. -/
def isCreationLike (header : MemberHeader) : Bool :=
  let before := header.place.before.dropWhile isBlank
  before.head? = some '.' || creationWords.contains (wordBefore before)

/-- What the declarations of one text are built with. -/
structure Site where
  language : Language
  masked : Text
  lineTable : LineTable

namespace Site

def ofText (language : Language) (t : Text) : Site :=
  let masked := mask language t
  ⟨language, masked, LineTable.ofText masked⟩

def attributes (site : Site) (place : Cursor) : List Text :=
  attributesAbove site.language.attributeMark place.before

/-- A type without its members. -/
def typeOf (site : Site) (header : TypeHeader) : TypeDeclaration where
  kind := header.kind
  name := header.name
  modifiers := header.modifiers
  typeParameters := header.typeParameters
  baseTypes := header.baseTypes
  parents := header.parents
  interfaces := header.interfaces
  permitted := header.permitted
  recordComponents := (header.components.map site.language.parseParameters).getD []
  attributes := site.attributes header.place
  methods := []
  constructors := []
  line := site.lineTable.lineOf header.start

def methodOf (site : Site) (header : MemberHeader) : Method where
  name := header.name
  modifiers := header.modifiers
  typeParameters := header.typeParameters
  returnType := header.returnType.getD []
  parameters := site.language.parseParameters header.parameters
  throws := header.throws
  attributes := site.attributes header.place
  prototype := site.language.prototype header
  line := site.lineTable.lineOf header.start

def constructorOf (site : Site) (header : MemberHeader) : Constructor where
  name := header.name
  modifiers := header.modifiers
  typeParameters := header.typeParameters
  parameters := site.language.parseParameters header.parameters
  throws := header.throws
  attributes := site.attributes header.place
  prototype := site.language.prototype header
  line := site.lineTable.lineOf header.start

/-- The method headers that are no statements. -/
def methodHeaders (site : Site) : List MemberHeader :=
  (site.language.methodHeaders site.masked).filter
    fun header => !isStatementLike site.language.methodModifiers header

/-- The headers that construct a type of the given name. -/
def constructorHeaders (typeName : Text) (headers : List MemberHeader) : List MemberHeader :=
  headers.filter fun header => header.name = typeName && !isCreationLike header

/-- The types of a text with the members that each one owns. -/
def types (site : Site) : List TypeDeclaration :=
  let headers := site.language.typeHeaders site.masked
  let ownership := Ownership.ofStarts (headers.map (·.start))
  let withOwner (members : List MemberHeader) :=
    members.map fun member => (ownership.ownerOf? member.start, member)
  let methods := withOwner site.methodHeaders
  let constructors := withOwner (site.language.constructorHeaders site.masked)
  headers.zipIdx.map fun (header, index) =>
    let owned (members : List (Option Nat × MemberHeader)) :=
      members.filterMap fun (owner, member) => if owner = some index then some member else none
    { site.typeOf header with
      methods := (owned methods).map site.methodOf
      constructors := (constructorHeaders header.name (owned constructors)).map site.constructorOf }

end Site

/-- The summary of a source text. -/
def summarize (language : Language) (path : Text) (t : Text) : FileSummary :=
  let site := Site.ofText language t
  ⟨path, language, language.scope? site.masked, site.types, none⟩

end SourceSurvey.Source
