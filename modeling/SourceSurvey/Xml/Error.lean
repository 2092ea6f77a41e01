import SourceSurvey.Text.Basic

/-! Faults of an XML text with the places where they show, and their messages. A place is a row and
a column, counted from one in characters. Where a sign was expected, the one found is told by its
first byte. -/

namespace SourceSurvey.Xml

open Text

structure Position where
  row : Nat
  column : Nat
deriving DecidableEq, Repr

namespace Position

/-- The place behind a character. -/
def past (p : Position) (c : Char) : Position :=
  if c = '\n' then ⟨p.row + 1, 1⟩ else ⟨p.row, p.column + 1⟩

def text (p : Position) : Text := Nat.toDigits 10 p.row ++ [':'] ++ Nat.toDigits 10 p.column

end Position

inductive Fault where
  | unexpectedEnd
  | noRoot
  | unclosedRoot
  | unknownToken (place : Position)
  | lateDeclaration (place : Position)
  | invalidName (place : Position)
  | expectedText (wanted : Text) (place : Position)
  | expectedSign (wanted found : Char) (place : Position)
  | expectedKind (wanted : Text) (found : Char) (place : Position)
  | invalidExternal (place : Position)
  | hyphensInComment (place : Position)
  | closedCharacterData (place : Position)
  | invalidCharacter (c : Char) (place : Position)
  | malformedReference (place : Position)
  | unknownReference (name : Text) (place : Position)
  | referenceLoop (place : Position)
  | unescapedLess (place : Position)
  | mismatchedTag (wanted found : Text) (place : Position)
  | strayClose (place : Position)
  | repeatedAttribute (name : Text) (place : Position)
  | unknownNamespace (name : Text) (place : Position)
  | repeatedNamespace (name : Text) (place : Position)
  | reservedNamespace (place : Position)
  | xmlNamespaceElsewhere (place : Position)
  | xmlNamedOtherwise (place : Position)
  | reservedElement (place : Position)
deriving DecidableEq, Repr

/-- The first byte of a character as a character of its own. -/
def leadByte (c : Char) : Char :=
  let n := c.toNat
  if n < 0x80 then c
  else if n < 0x800 then Char.ofNat (0xC0 + n / 0x40)
  else if n < 0x10000 then Char.ofNat (0xE0 + n / 0x1000)
  else Char.ofNat (0xF0 + n / 0x40000)

/-- A character that XML does not allow, between single quotes. -/
def showCharacter (c : Char) : Text :=
  if c.toNat = 0 then ['\'', '\\', '0', '\'']
  else ['\'', '\\', 'u', '{'] ++ Nat.toDigits 16 c.toNat ++ ['}', '\'']

namespace Fault

def message : Fault → Text
  | unexpectedEnd => "unexpected end of stream".toList
  | noRoot => "the document does not have a root node".toList
  | unclosedRoot => "the root node was opened but never closed".toList
  | unknownToken p => "unknown token at ".toList ++ p.text
  | lateDeclaration p => "unexpected XML declaration at ".toList ++ p.text
  | invalidName p => "invalid name token at ".toList ++ p.text
  | expectedText wanted p => "expected '".toList ++ wanted ++ "' at ".toList ++ p.text
  | expectedSign wanted found p =>
    "expected '".toList ++ [wanted] ++ "' not '".toList ++ [leadByte found] ++
      "' at ".toList ++ p.text
  | expectedKind wanted found p =>
    "expected ".toList ++ wanted ++ " not '".toList ++ [leadByte found] ++ "' at ".toList ++ p.text
  | invalidExternal p => "invalid ExternalID at ".toList ++ p.text
  | hyphensInComment p => "comment at ".toList ++ p.text ++ " contains '--'".toList
  | closedCharacterData p =>
    "']]>' at ".toList ++ p.text ++ " is not allowed inside a character data".toList
  | invalidCharacter c p =>
    "a non-XML character ".toList ++ showCharacter c ++ " found at ".toList ++ p.text
  | malformedReference p => "malformed entity reference at ".toList ++ p.text
  | unknownReference name p =>
      "unknown entity reference '".toList ++ name ++ "' at ".toList ++ p.text
  | referenceLoop p => "a possible entity reference loop is detected at ".toList ++ p.text
  | unescapedLess p => "unescaped '<' found at ".toList ++ p.text
  | mismatchedTag wanted found p =>
    "expected '".toList ++ wanted ++ "' tag, not '".toList ++ found ++ "' at ".toList ++ p.text
  | strayClose p => "unexpected close tag at ".toList ++ p.text
  | repeatedAttribute name p =>
    "attribute '".toList ++ name ++ "' at ".toList ++ p.text ++ " is already defined".toList
  | unknownNamespace name p =>
    "an unknown namespace prefix '".toList ++ name ++ "' at ".toList ++ p.text
  | repeatedNamespace name p =>
    "namespace '".toList ++ name ++ "' at ".toList ++ p.text ++ " is already defined".toList
  | reservedNamespace p =>
    "the 'xmlns' URI is used at ".toList ++ p.text ++ ", but it must not be declared".toList
  | xmlNamespaceElsewhere p =>
    "the 'xml' namespace URI is used for not 'xml' prefix at ".toList ++ p.text
  | xmlNamedOtherwise p => "'xml' namespace prefix mapped to wrong URI at ".toList ++ p.text
  | reservedElement p =>
    "the 'xmlns' prefix is used at ".toList ++ p.text ++ ", but it must not be".toList

end Fault

end SourceSurvey.Xml
