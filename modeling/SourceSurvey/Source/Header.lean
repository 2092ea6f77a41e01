import SourceSurvey.Pattern.Search
import SourceSurvey.Source.Attribute
import SourceSurvey.Source.Declaration
import SourceSurvey.Source.Split

/-! Headers of types, methods and constructors as they stand in the text, and the parts from which
the patterns of both languages are put together. -/

namespace SourceSurvey.Source

open Text Pattern

structure TypeHeader where
  place : Cursor
  kind : TypeKind
  name : Text
  modifiers : List Text
  typeParameters : Option Text
  baseTypes : List Text
  parents : List Text
  interfaces : List Text
  permitted : List Text
  /-- The text between the parentheses of a record header. -/
  components : Option Text
deriving DecidableEq, Repr

/-- A method header, or a constructor header where there is no return type. -/
structure MemberHeader where
  place : Cursor
  name : Text
  modifiers : List Text
  typeParameters : Option Text
  returnType : Option Text
  /-- The text between the parentheses. -/
  parameters : Text
  throws : List Text
deriving DecidableEq, Repr

/-- The offset at which a header starts. -/
def TypeHeader.start (h : TypeHeader) : Nat := h.place.offset

def MemberHeader.start (h : MemberHeader) : Nat := h.place.offset

/-- The marked parts of a header. -/
inductive Slot where
  | scope
  | modifiers
  | kind
  | name
  | typeParameters
  | components
  | bases
  | parents
  | interfaces
  | permitted
  | ending
  | returnType
  | parameters
  | throws
deriving DecidableEq, Repr

/-! ### Parts of patterns -/

/-- Any number of the given words, each with blanks behind it. -/
def modifierRun (words : List Text) : Pattern Slot :=
  mark .modifiers (star (all [wordEdge, oneOf words, someBlanks]))

/-- The shortest text in angle brackets that holds none of the barred characters. -/
def angleGroup (barred : Text) : Pattern Slot :=
  all [sign '<', lazyPlus (noneOf barred), sign '>']

def named : Pattern Slot := mark .name identifier

/-- Text in which parentheses are balanced and not nested. -/
def flatParentheses : Pattern Slot :=
  star (alt (noneOf ['(', ')']) (all [sign '(', star (noneOf ['(', ')']), sign ')']))

/-- A parameter list, whose parentheses may hold further ones that are not nested. -/
def parameterList : Pattern Slot :=
  all [blanks, sign '(', mark .parameters flatParentheses, sign ')']

/-- The component list of a record header. -/
def componentList : Pattern Slot :=
  optional (all [blanks, sign '(', mark .components (star (noneOf [')'])), sign ')'])

/-- A word with blanks on both sides and the shortest clause behind it. -/
def clauseAfter (word : Text) (slot : Slot) : Pattern Slot :=
  optional (all [someBlanks, literal word, someBlanks, mark slot (lazyPlus (noneOf ['{', ';']))])

/-- One character of a return type: a word character or one of the given signs. -/
def typeCharacter (signs : Text) : Pattern Slot := one fun c => isWord c || signs.contains c

/-! ### Reading matches -/

/-- The header that a match of a member pattern describes. -/
def MemberHeader.ofMatch (m : Match Slot) : MemberHeader where
  place := m.first
  name := m.text .name
  modifiers := words (m.text .modifiers)
  typeParameters := (m.text? .typeParameters).map collapse
  returnType := (m.text? .returnType).map collapse
  parameters := m.text .parameters
  throws := splitClause (m.text? .throws)

/-- The member headers of a text: no match may start inside an attribute. -/
def memberHeaders (p : Pattern Slot) (t : Text) : List MemberHeader :=
  (p.matchesUnless (fun place => endsInAttribute place.before) t).map MemberHeader.ofMatch

end SourceSurvey.Source
