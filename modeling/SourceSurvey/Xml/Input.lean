import SourceSurvey.Xml.Error

/-! A stretch of an XML text that is still to be read, with the place where it starts, and the
readers for its smallest parts. A reader gives what it reads and the input behind it, or tells
what is wrong and where. -/

namespace SourceSurvey.Xml

open Text

/-! ### Characters -/

def isSpace (c : Char) : Bool := c = ' ' || c = '\t' || c = '\n' || c = '\r'

/-- The characters that may stand in an XML text. -/
def isAllowed (c : Char) : Bool :=
  if c.toNat < 0x20 then isSpace c else c.toNat != 0xFFFE && c.toNat != 0xFFFF

def inNameRanges (n : Nat) : Bool :=
  (0xC0 ≤ n && n ≤ 0xD6) || (0xD8 ≤ n && n ≤ 0xF6) || (0xF8 ≤ n && n ≤ 0x2FF) ||
    (0x370 ≤ n && n ≤ 0x37D) || (0x37F ≤ n && n ≤ 0x1FFF) || (0x200C ≤ n && n ≤ 0x200D) ||
    (0x2070 ≤ n && n ≤ 0x218F) || (0x2C00 ≤ n && n ≤ 0x2FEF) || (0x3001 ≤ n && n ≤ 0xD7FF) ||
    (0xF900 ≤ n && n ≤ 0xFDCF) || (0xFDF0 ≤ n && n ≤ 0xFFFD) || (0x10000 ≤ n && n ≤ 0xEFFFF)

def startsName (c : Char) : Bool := c.isAlpha || c = ':' || c = '_' || inNameRanges c.toNat

def continuesName (c : Char) : Bool :=
  startsName c || c.isDigit || c = '-' || c = '.' || c.toNat = 0xB7 ||
    (0x300 ≤ c.toNat && c.toNat ≤ 0x36F) || (0x203F ≤ c.toNat && c.toNat ≤ 0x2040)

/-! ### Input -/

structure Input where
  position : Position
  rest : Text
deriving DecidableEq, Repr

namespace Input

def ofText (t : Text) : Input := ⟨⟨1, 1⟩, t⟩

/-- The input behind its first `n` characters. -/
def drop : Nat → Input → Input
  | 0, s => s
  | _ + 1, ⟨p, []⟩ => ⟨p, []⟩
  | n + 1, ⟨p, c :: rest⟩ => drop n ⟨p.past c, rest⟩

/-- The characters at the front that satisfy a condition, and the input behind them. -/
def span (s : Input) (p : Char → Bool) : Text × Input :=
  let taken := s.rest.takeWhile p
  (taken, s.drop taken.length)

def skipSpaces (s : Input) : Input := (s.span isSpace).2

def startsWith (s : Input) (word : String) : Bool := word.toList.isPrefixOf s.rest

end Input

open Input

/-- The next character. -/
def peek (s : Input) : Except Fault Char :=
  match s.rest with
  | [] => .error .unexpectedEnd
  | c :: _ => .ok c

/-- The input behind a sign. -/
def expect (wanted : Char) (s : Input) : Except Fault Input := do
  let found ← peek s
  if found = wanted then return s.drop 1 else throw (.expectedSign wanted found s.position)

/-- The input behind a word. -/
def expectWord (word : String) (s : Input) : Except Fault Input :=
  if s.startsWith word then .ok (s.drop word.length) else
    .error (.expectedText word.toList s.position)

/-- The input behind one space or more. -/
def expectSpaces (s : Input) : Except Fault Input := do
  let found ← peek s
  if isSpace found then return s.skipSpaces
  else throw (.expectedKind "a whitespace".toList found s.position)

/-- An equals sign with spaces around it. -/
def expectEquals (s : Input) : Except Fault Input := do
  return (← expect '=' s.skipSpaces).skipSpaces

/-- A quotation mark of either kind. -/
def readQuote (s : Input) : Except Fault (Char × Input) := do
  let found ← peek s
  if found = '"' ∨ found = '\'' then return (found, s.drop 1)
  else throw (.expectedKind "a quote".toList found s.position)

/-- The characters up to the place where `stop` holds of the text; all must be allowed. -/
def charactersFrom (stop : Text → Bool) (position : Position) (taken : Text) :
    Text → Except Fault (Text × Input)
  | [] => .ok (taken.reverse, ⟨position, []⟩)
  | c :: rest =>
    if !isAllowed c then .error (.invalidCharacter c position)
    else if stop (c :: rest) then .ok (taken.reverse, ⟨position, c :: rest⟩)
    else charactersFrom stop (position.past c) (c :: taken) rest

def readCharacters (stop : Text → Bool) (s : Input) : Except Fault (Text × Input) :=
  charactersFrom stop s.position [] s.rest

/-- The characters in front of a word, and the input behind the word. -/
def readUntilWord (word : String) (s : Input) : Except Fault (Text × Input) := do
  let (taken, s) ← readCharacters word.toList.isPrefixOf s
  return (taken, ← expectWord word s)

/-- A quoted value that holds no less-than sign. -/
def readQuoted (s : Input) : Except Fault (Input × Input) := do
  let (quote, s) ← readQuote s
  let (taken, behind) ← readCharacters (fun t => t.head? = some quote || t.head? = some '<') s
  return (⟨s.position, taken⟩, ← expect quote behind)

/-- A quoted value of any characters. -/
def readAnyQuoted (s : Input) : Except Fault (Input × Input) := do
  let (quote, s) ← readQuote s
  let (taken, behind) := s.span (· ≠ quote)
  return (⟨s.position, taken⟩, ← expect quote behind)

/-! ### Names -/

/-- A name that may be missing only at the end of the input. -/
def skipName (s : Input) : Except Fault Input :=
  match s.rest with
  | [] => .ok s
  | c :: _ => if startsName c then .ok (s.span continuesName).2 else
      .error (.invalidName s.position)

def readName (s : Input) : Except Fault (Text × Input) := do
  let behind ← skipName s
  match s.rest with
  | [] => throw (.invalidName s.position)
  | _ => return ((s.span continuesName).1, behind)

/-- A name in two parts, the first empty where there is no colon. -/
structure QualifiedName where
  space : Text
  name : Text
deriving DecidableEq, Repr

namespace QualifiedName

def text (q : QualifiedName) : Text := if q.space = [] then q.name else q.space ++ [':'] ++ q.name

end QualifiedName

/-- Whether a part of a qualified name may stand; only the first part may be empty. -/
def validSpace (t : Text) : Bool := t.head?.all startsName

def validLocal (t : Text) : Bool := t.head?.any startsName

/-- A qualified name has at most one colon. -/
def readQualified (s : Input) : Except Fault (QualifiedName × Input) :=
  let (taken, behind) := s.span continuesName
  let q : Option QualifiedName :=
    match splitAll (· = ':') taken with
    | [name] => some ⟨[], name⟩
    | [space, name] => some ⟨space, name⟩
    | _ => none
  match q with
  | some q => if validSpace q.space && validLocal q.name then .ok (q, behind) else
      .error (.invalidName s.position)
  | none => .error (.invalidName s.position)

end SourceSurvey.Xml
