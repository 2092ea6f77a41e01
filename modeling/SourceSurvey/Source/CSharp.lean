import SourceSurvey.Source.Header

/-! Declarations of C#. The type parameters of a method follow its name, `where` constraints are
passed over, and a constructor may call `base` or `this` before its body. -/

namespace SourceSurvey.Source.CSharp

open Text Pattern

def typeModifiers : List Text :=
  ["public".toList, "internal".toList, "protected".toList, "private".toList, "static".toList,
    "abstract".toList, "sealed".toList, "partial".toList, "readonly".toList, "ref".toList,
    "unsafe".toList, "new".toList, "file".toList]

def methodModifiers : List Text :=
  ["public".toList, "internal".toList, "protected".toList, "private".toList, "static".toList,
    "virtual".toList, "abstract".toList, "override".toList, "sealed".toList, "async".toList,
    "extern".toList, "unsafe".toList, "new".toList, "partial".toList, "readonly".toList]

def constructorModifiers : List Text :=
  ["public".toList, "internal".toList, "protected".toList, "private".toList, "static".toList,
    "extern".toList, "unsafe".toList]

def parameterModifiers : List Text :=
  ["this".toList, "ref".toList, "out".toList, "in".toList, "params".toList, "scoped".toList,
    "readonly".toList]

/-! ### Patterns -/

def scopePattern : Pattern Slot :=
  all [lineStart, blanks, literal "namespace".toList, someBlanks,
    mark .scope (seq (one isNameStart) (star (typeCharacter ['.']))), blanks,
    any [sign ';', sign '{']]

/-- The declaring word; a record may add `class` or `struct`. -/
def kindPattern : Pattern Slot :=
  mark .kind (any [literal "class".toList, literal "interface".toList, literal "struct".toList,
    literal "enum".toList,
    seq (literal "record".toList)
      (optional (seq someBlanks (oneOf ["class".toList, "struct".toList])))])

def typePattern : Pattern Slot :=
  all [modifierRun typeModifiers, wordEdge, kindPattern, someBlanks, named,
    optional (mark .typeParameters (seq blanks (angleGroup ['{', '}', '(', ')', ';']))),
    componentList,
    optional (all [blanks, sign ':', blanks, mark .bases (lazyPlus (noneOf ['{', ';']))]),
    optional (all [someBlanks, literal "where".toList, someBlanks, lazyPlus (noneOf ['{', ';'])]),
    blanks, mark .ending (any [sign '{', sign ';'])]

/-- What may end the header of a member. -/
def memberEnd : Pattern Slot := seq blanks (any [sign '{', literal "=>".toList, sign ';'])

def methodPattern : Pattern Slot :=
  all [modifierRun methodModifiers, wordEdge,
    mark .returnType (seq (one isNameStart)
      (lazyStar (typeCharacter ['.', '[', ']', '<', '>', ',', '?', ' ', '\t']))),
    someBlanks, named,
    optional (mark .typeParameters (seq blanks (angleGroup ['{', '}', '(', ')', ';', '=']))),
    parameterList,
    optional (all [blanks, literal "where".toList, someBlanks, lazyPlus (noneOf ['{', ';', '='])]),
    memberEnd]

def constructorPattern : Pattern Slot :=
  all [modifierRun constructorModifiers, wordEdge, named, parameterList,
    optional (all [blanks, sign ':', blanks, oneOf ["base".toList, "this".toList], blanks,
      sign '(', flatParentheses, sign ')']),
    memberEnd]

/-! ### Headers -/

/-- The namespace that a text declares first. -/
def scope? (t : Text) : Option Text := ((scopePattern.allMatches t).head?).bind (·.text? .scope)

/-- A type needs a body, except a record with components, which may end in a semicolon. -/
def typeHeader? (m : Match Slot) : Option TypeHeader :=
  if m.text .ending = [';'] ∧ m.text? .components = none then none
  else do
    let word ← (words (m.text .kind)).head?
    let kind ← TypeKind.ofKeyword? word
    return {
      place := m.first
      kind := kind
      name := m.text .name
      modifiers := words (m.text .modifiers)
      typeParameters := (m.text? .typeParameters).map collapse
      baseTypes := splitClause (m.text? .bases)
      parents := []
      interfaces := []
      permitted := []
      components := m.text? .components }

def typeHeaders (t : Text) : List TypeHeader := (typePattern.allMatches t).filterMap typeHeader?

def methodHeaders (t : Text) : List MemberHeader := memberHeaders methodPattern t

def constructorHeaders (t : Text) : List MemberHeader := memberHeaders constructorPattern t

/-! ### Parameters and prototypes -/

/-- Attributes in brackets, modifiers, the type and the name; a default value is passed over. -/
def parseParameter (t : Text) : Parameter :=
  let raw := trim t
  let (attributes, rest) := takeGroups raw
  let tokens := words (stripDefault rest)
  let modifiers := tokens.takeWhile parameterModifiers.contains
  let declared := tokens.dropWhile parameterModifiers.contains
  { raw := raw
    typeName := match declared.dropLast with
      | [] => none
      | typeWords => some ([' '].intercalate typeWords)
    name := declared.getLast?
    variadic := modifiers.contains "params".toList
    modifiers := modifiers
    attributes := attributes }

/-- Modifiers, return type, name with type parameters, and the parameter list. -/
def prototype (header : MemberHeader) : Text :=
  [' '].intercalate
    ((if header.modifiers = [] then [] else [[' '].intercalate header.modifiers]) ++
      header.returnType.toList ++
      [header.name ++ header.typeParameters.getD [] ++ ['('] ++ collapse
        header.parameters ++ [')']])

end SourceSurvey.Source.CSharp
