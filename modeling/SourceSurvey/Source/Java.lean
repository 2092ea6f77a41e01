import SourceSurvey.Source.Header

/-! Declarations of Java. The type parameters of a member stand before its return type or name,
and a throws clause may follow the parameter list. -/

namespace SourceSurvey.Source.Java

open Text Pattern

def typeModifiers : List Text :=
  ["public".toList, "protected".toList, "private".toList, "abstract".toList, "final".toList,
    "static".toList, "sealed".toList, "non-sealed".toList, "strictfp".toList]

def methodModifiers : List Text :=
  ["public".toList, "protected".toList, "private".toList, "static".toList, "abstract".toList,
    "final".toList, "synchronized".toList, "native".toList, "strictfp".toList, "default".toList]

def constructorModifiers : List Text := ["public".toList, "protected".toList, "private".toList]

/-! ### Patterns -/

def scopePattern : Pattern Slot :=
  all [lineStart, blanks, literal "package".toList, someBlanks,
    mark .scope (seq identifier (star (seq (sign '.') identifier))), blanks, sign ';']

def kindPattern : Pattern Slot :=
  mark .kind (alt (literal "@interface".toList)
    (seq wordEdge (oneOf ["interface".toList, "enum".toList, "record".toList, "class".toList])))

def typePattern : Pattern Slot :=
  all [modifierRun typeModifiers, kindPattern, someBlanks, named,
    optional (mark .typeParameters (seq blanks (angleGroup ['{', '}', '(', ')', ';']))),
    componentList,
    clauseAfter "extends".toList .parents,
    clauseAfter "implements".toList .interfaces,
    clauseAfter "permits".toList .permitted,
    blanks, sign '{']

/-- Type parameters in front of a member, with the blanks behind them. -/
def memberTypeParameters : Pattern Slot :=
  optional (mark .typeParameters (seq (angleGroup ['{', '}', '(', ')', ';', '=']) blanks))

def throwsClause : Pattern Slot :=
  optional (all [blanks, literal "throws".toList, someBlanks,
    mark .throws (lazyPlus (noneOf [';', '{']))])

def methodPattern : Pattern Slot :=
  all [modifierRun methodModifiers, memberTypeParameters, wordEdge,
    mark .returnType (seq (one isNameStart)
      (lazyStar (typeCharacter ['.', '[', ']', '<', '>', '?', ',', '&', ' ', '\t']))),
    someBlanks, named, parameterList, throwsClause, blanks, any [sign '{', sign ';']]

def constructorPattern : Pattern Slot :=
  all [modifierRun constructorModifiers, memberTypeParameters, wordEdge, named, parameterList,
    throwsClause, blanks, sign '{']

/-- An annotation with its arguments, if it has any. -/
def attributePattern : Pattern Slot :=
  all [sign '@', one isNameStart, star (typeCharacter ['.']),
    optional (all [blanks, sign '(', flatParentheses, sign ')'])]

/-! ### Headers -/

/-- The package that a text declares first. -/
def scope? (t : Text) : Option Text := ((scopePattern.allMatches t).head?).bind (·.text? .scope)

def typeHeader? (m : Match Slot) : Option TypeHeader := do
  let kind ← TypeKind.ofKeyword? (m.text .kind)
  return {
    place := m.first
    kind := kind
    name := m.text .name
    modifiers := words (m.text .modifiers)
    typeParameters := (m.text? .typeParameters).map collapse
    baseTypes := []
    parents := splitClause (m.text? .parents)
    interfaces := splitClause (m.text? .interfaces)
    permitted := splitClause (m.text? .permitted)
    components := m.text? .components }

def typeHeaders (t : Text) : List TypeHeader := (typePattern.allMatches t).filterMap typeHeader?

def methodHeaders (t : Text) : List MemberHeader := memberHeaders methodPattern t

def constructorHeaders (t : Text) : List MemberHeader := memberHeaders constructorPattern t

/-! ### Parameters and prototypes -/

def ellipsis : Text := ['.', '.', '.']

/-- A single word with an ellipsis inside is a variadic type and a name. -/
def partVariadic : List Text → List Text
  | [word] =>
    match splitOnce? ellipsis word with
    | some (typeName, name) => [typeName ++ ellipsis, name]
    | none => [word]
  | tokens => tokens

/-- An ellipsis in front of the name belongs to the last word of the type. -/
def moveEllipsis (typeWords : List Text) (name : Text) : List Text × Text :=
  match after? ellipsis name with
  | none => (typeWords, name)
  | some rest =>
    match typeWords.getLast? with
    | none => ([], rest)
    | some last => (typeWords.dropLast ++ [last ++ ellipsis], rest)

/-- Annotations, `final`, the type and the name; a variadic type is reported as an array. -/
def parseParameter (t : Text) : Parameter :=
  let raw := trim t
  let attributes := (attributePattern.allMatches raw).map fun m => collapse m.whole.text
  let tokens := words (attributePattern.replaceAll [' '] raw)
  let modifiers := tokens.filter (· = "final".toList)
  let declared := partVariadic (tokens.filter (· ≠ "final".toList))
  let bare : Parameter := ⟨raw, none, none, false, modifiers, attributes⟩
  match declared.getLast? with
  | none => bare
  | some last =>
    let (typeWords, name) := moveEllipsis declared.dropLast last
    if typeWords = [] then { bare with name := some name }
    else
      let typeName := [' '].intercalate typeWords
      match before? ellipsis typeName with
      | some element =>
        { bare with
          name := some name, variadic := true, typeName := some (trimEnd element ++ ['[', ']']) }
      | none => { bare with name := some name, typeName := some typeName }

/-- Modifiers, type parameters, return type, name with its parameter list, and the thrown types. -/
def prototype (header : MemberHeader) : Text :=
  [' '].intercalate
    ((if header.modifiers = [] then [] else [[' '].intercalate header.modifiers]) ++
      header.typeParameters.toList ++ header.returnType.toList ++
      [header.name ++ ['('] ++ collapse header.parameters ++ [')']] ++
      (if header.throws = [] then []
        else ["throws ".toList ++ [',', ' '].intercalate header.throws]))

end SourceSurvey.Source.Java
