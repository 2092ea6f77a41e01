import SourceSurvey.Xml.Reference

/-! The reading of a document: an XML declaration, comments and instructions, a document type with
its entity declarations, the root element, and comments and instructions behind it. Content is
read in one loop that counts the tags it has opened itself; it ends with the end tag of the
element around it or with the input. -/

namespace SourceSurvey.Xml

open Text

/-! ### Comments, instructions and declarations -/

/-- A comment may not hold two hyphens in a row or end in one. -/
def readComment (s : Input) : Except Fault Input := do
  let (comment, behind) ← readUntilWord "-->" (s.drop 4)
  if comment.getLast? = some '-' ∨ (splitOnce? ['-', '-'] comment).isSome then
    throw (.hyphensInComment s.position)
  return behind

def readInstruction (s : Input) : Except Fault Input := do
  if s.startsWith "<?xml " then throw (.lateDeclaration s.position)
  let (_, s) ← readName (s.drop 2)
  let (_, s) ← readUntilWord "?>" s.skipSpaces
  return s

/-- Spaces between the parts of an XML declaration. -/
def declarationSpaces (s : Input) : Except Fault Input :=
  match s.rest with
  | [] => .ok s
  | c :: _ =>
    if isSpace c ∨ s.startsWith "?>" then .ok s.skipSpaces
    else .error (.expectedKind "a whitespace".toList c s.position)

/-- One part of an XML declaration. -/
def declarationPart (s : Input) : Except Fault Input := do
  let (_, s) ← readQualified s
  let (_, s) ← readQuoted (← expectEquals s)
  return s

/-- The XML declaration, behind which the document begins. -/
def readDeclaration (s : Input) : Except Fault Input := do
  let s ← declarationSpaces (s.drop 5)
  if !s.startsWith "version" then throw (.expectedText "version".toList s.position)
  let s ← declarationSpaces (← declarationPart s)
  let s ← if s.startsWith "encoding" then do declarationSpaces (← declarationPart s) else pure s
  let s ← if s.startsWith "standalone" then declarationPart s else pure s
  expectWord "?>" s.skipSpaces

/-- Comments, instructions and spaces outside the root element. -/
def readMisc : Nat → Input → Builder → Except Fault (Input × Builder)
  | 0, s, b => .ok (s, b)
  | fuel + 1, s, b =>
    if s.rest = [] then .ok (s, b)
    else
      let s := s.skipSpaces
      if s.startsWith "<!--" then do readMisc fuel (← readComment s) (b.appendOther .comment)
      else if s.startsWith "<?"
        then do readMisc fuel (← readInstruction s) (b.appendOther .instruction)
      else .ok (s, b)

/-! ### The document type -/

/-- An external identifier, if there is one. -/
def readExternal? (s : Input) : Except Fault (Option Input) :=
  if s.startsWith "SYSTEM" then do
    let (_, s) ← readAnyQuoted (← expectSpaces (s.drop 6))
    return some s
  else if s.startsWith "PUBLIC" then do
    let (_, s) ← readAnyQuoted (← expectSpaces (s.drop 6))
    let (_, s) ← readAnyQuoted (← expectSpaces s)
    return some s
  else .ok none

/-- The value of an entity declaration; external entities have none. -/
def readEntityValue (general : Bool) (s : Input) : Except Fault (Option Input × Input) := do
  let c ← peek s
  if c = '"' ∨ c = '\'' then
    let (value, s) ← readAnyQuoted s
    return (some value, s)
  else if c = 'S' ∨ c = 'P' then
    match ← readExternal? s with
    | none => throw (.invalidExternal s.position)
    | some s =>
      if general ∧ s.skipSpaces.startsWith "NDATA" then
        return (none, ← skipName (← expectSpaces (s.skipSpaces.drop 5)))
      else return (none, if general then s.skipSpaces else s)
  else throw (.expectedKind "a quote, SYSTEM or PUBLIC".toList c s.position)

def readEntity (s : Input) (b : Builder) : Except Fault (Input × Builder) := do
  let s ← expectSpaces (s.drop 8)
  let general := s.rest.head? ≠ some '%'
  let s ← if general then pure s else expectSpaces (s.drop 1)
  let (name, s) ← readName s
  let (value, s) ← readEntityValue general (← expectSpaces s)
  let s ← expect '>' s.skipSpaces
  return (s, value.elim b (b.declareEntity name))

/-- A declaration that says nothing about entities, up to the first closing sign. -/
def skipDeclaration (s : Input) : Except Fault Input := expect '>' (s.span (· ≠ '>')).2

/-- The declarations between the brackets of a document type, which may end with the input. -/
def readSubset (start : Position) : Nat → Input → Builder → Except Fault (Input × Builder)
  | 0, s, b => .ok (s, b)
  | fuel + 1, s, b =>
    if s.rest = [] then .ok (s, b)
    else
      let s := s.skipSpaces
      if s.startsWith "<!ENTITY" then do
        let (s, b) ← readEntity s b
        readSubset start fuel s b
      else if s.startsWith "<!--"
        then do readSubset start fuel (← readComment s) (b.appendOther .comment)
      else if s.startsWith "<?"
        then do readSubset start fuel (← readInstruction s) (b.appendOther .instruction)
      else if s.startsWith "]" then do return (← expect '>' (s.drop 1).skipSpaces, b)
      else if s.startsWith "<!ELEMENT" ∨ s.startsWith "<!ATTLIST" ∨ s.startsWith "<!NOTATION" then
        match skipDeclaration s with
        | .ok s => readSubset start fuel s b
        | .error _ => .error (.unknownToken start)
      else .error (.unknownToken s.position)

def readDocumentType (s : Input) (b : Builder) : Except Fault (Input × Builder) := do
  let start := s.position
  let s ← skipName (← expectSpaces (s.drop 9))
  let s := s.skipSpaces
  let s := ((← readExternal? s).getD s).skipSpaces
  let c ← peek s
  if c = '>' then return (s.drop 1, b)
  else if c = '[' then readSubset start (s.rest.length + 1) (s.drop 1) b
  else throw (.expectedKind "'[' or '>'".toList c s.position)

/-! ### Elements -/

/-- One attribute of a start tag. -/
def readAttribute (room : Nat) (s : Input) (b : Builder) : Except Fault (Input × Builder) := do
  let (name, behind) ← readQualified s
  let (value, behind) ← readQuoted (← expectEquals behind)
  let (value, references) ← valueIn b.entities room value b.references
  let b ← { b with references := references }.addAttribute name value s.position
  return (behind, b)

/-- The attributes and the end of a start tag; tells whether the tag opens an element. A tag that
is cut off behind a name or a value opens none. -/
def readTagFrom (room : Nat) : Nat → Input → Builder → Except Fault (Bool × Input × Builder)
  | 0, s, b => .ok (false, s, b)
  | fuel + 1, s, b =>
    match s.rest with
    | [] => .ok (false, s, b)
    | first :: _ => do
      let s := s.skipSpaces
      let c ← peek s
      if c = '/' then
        let behind ← expect '>' (s.drop 1)
        return (false, behind, ← b.endTag .empty s.position)
      else if c = '>' then return (true, s.drop 1, ← b.endTag .opened s.position)
      else if !isSpace first then throw (.expectedKind "a whitespace".toList c s.position)
      else
        let (s, b) ← readAttribute room s b
        readTagFrom room fuel s b

/-- A start tag; tells whether it opens an element. The fuel is at least the number of characters
left. -/
def readTag (room fuel : Nat) (s : Input) (b : Builder) :
    Except Fault (Bool × Input × Builder) := do
  let (name, behind) ← readQualified (s.drop 1)
  let b ← b.startTag name s.position
  readTagFrom room fuel behind b

def readEndTag (s : Input) (b : Builder) : Except Fault (Input × Builder) := do
  let (name, behind) ← readQualified (s.drop 2)
  let behind ← expect '>' behind.skipSpaces
  return (behind, ← b.endTag (.close name) s.position)

def readCharacterBlock (s : Input) (b : Builder) : Except Fault (Input × Builder) := do
  let (t, behind) ← readUntilWord "]]>" (s.drop 9)
  return (behind, b.appendText (turnLineEnds [] t))

/-- A run of text up to the next tag. -/
def readText (room : Nat) (expand : Input → Builder → Except Fault Builder) (s : Input)
    (b : Builder) :
    Except Fault (Input × Builder) := do
  let (t, behind) ← readCharacters (fun t => t.head? = some '<') s
  if (splitOnce? [']', ']', '>'] t).isSome then throw (.closedCharacterData behind.position)
  return (behind, ← textFrom room expand (t.length + 1) ⟨s.position, t⟩ [] false b)

/-- Content inside `level` elements that were opened since it began. -/
def readContentFrom (room : Nat) (expand : Input → Builder → Except Fault Builder) :
    Nat → Nat → Input → Builder → Except Fault (Input × Builder)
  | 0, _, s, b => .ok (s, b)
  | fuel + 1, level, s, b =>
    match s.rest with
    | [] => .ok (s, b)
    | ['<'] => .error (.unknownToken s.position)
    | '<' :: '!' :: _ =>
      if s.startsWith "<!--" then do
        readContentFrom room expand fuel level (← readComment s) (b.appendOther .comment)
      else if s.startsWith "<![CDATA[" then do
        let (s, b) ← readCharacterBlock s b
        readContentFrom room expand fuel level s b
      else .error (.unknownToken s.position)
    | '<' :: '?' :: _ => do
      readContentFrom room expand fuel level (← readInstruction s) (b.appendOther .instruction)
    | '<' :: '/' :: _ => do
      let (s, b) ← readEndTag s b
      match level with
      | 0 => return (s, b)
      | level + 1 => readContentFrom room expand fuel level s b
    | '<' :: _ => do
      let (opens, s, b) ← readTag room fuel s b
      readContentFrom room expand fuel (if opens then level + 1 else level) s b
    | _ => do
      let (s, b) ← readText room expand s b
      readContentFrom room expand fuel level s b

/-- The value of an entity read as content, with `room` levels of entities left inside it. -/
def readEntityContent : Nat → Input → Builder → Except Fault Builder
  | 0, s, b => do
    let (_, b) ← readContentFrom 0 (fun _ b => .ok b) (s.rest.length + 1) 0 s b
    return b
  | room + 1, s, b => do
    let (_, b) ← readContentFrom (room + 1) (readEntityContent room) (s.rest.length + 1) 0 s b
    return b

def readContent (s : Input) (b : Builder) : Except Fault (Input × Builder) :=
  readContentFrom entityDepth (readEntityContent (entityDepth - 1)) (s.rest.length + 1) 0 s b

/-- The root element, if the input begins with a tag. -/
def readRoot (s : Input) (b : Builder) : Except Fault (Input × Builder) :=
  if s.rest.head? = some '<' then do
    let (opens, s, b) ← readTag entityDepth s.rest.length s b
    if opens then readContent s b else return (s, b)
  else .ok (s, b)

/-! ### Documents -/

def readType (s : Input) (b : Builder) : Except Fault (Input × Builder) :=
  if s.startsWith "<!DOCTYPE" then do
    let (s, b) ← readDocumentType s b
    readMisc (s.rest.length + 1) s b
  else .ok (s, b)

/-- The root element of a document. -/
def parse (t : Text) : Except Fault Node := do
  let s := Input.ofText t
  let s := if s.rest.head? = some '\uFEFF' then s.drop 1 else s
  let s ← if s.startsWith "<?xml " then readDeclaration s else pure s
  let (s, b) ← readMisc (s.rest.length + 1) s .empty
  let (s, b) ← readType s.skipSpaces b
  let (s, b) ← readRoot s.skipSpaces b
  let (s, b) ← readMisc (s.rest.length + 1) s b
  if s.rest ≠ [] then throw (.unknownToken s.position)
  b.root

end SourceSurvey.Xml
