import SourceSurvey.Xml.Builder

/-! References in character data and attribute values: characters by number, the five named
characters, and declared entities. An entity is read as content where it stands in text and as
further value in an attribute, at most ten deep; inside one, at most 255 references are expanded.
Line ends become newlines in text and blanks become spaces in values, unless they are written as
references outside all entities. -/

namespace SourceSurvey.Xml

open Text

inductive Reference where
  | character (c : Char)
  | entity (name : Text)

def namedCharacter? (name : Text) : Option Char :=
  if name = "quot".toList then some '"'
  else if name = "amp".toList then some '&'
  else if name = "apos".toList then some '\''
  else if name = "lt".toList then some '<'
  else if name = "gt".toList then some '>'
  else none

def isHexDigit (c : Char) : Bool := c.isDigit || ('a' ≤ c && c ≤ 'f') || ('A' ≤ c && c ≤ 'F')

def digitValue (c : Char) : Nat :=
  if c.isDigit then c.toNat - '0'.toNat else (c.toLower).toNat - 'a'.toNat + 10

/-- The character with a number that fits in 32 bits; one that is no character is replaced. -/
def characterOf? (base : Nat) (digits : Text) : Option Char :=
  let n := digits.foldl (fun n c => n * base + digitValue c) 0
  if digits = [] ∨ 0x100000000 ≤ n then none
  else
    let c := if n.isValidChar then Char.ofNat n else Char.ofNat 0xFFFD
    if isAllowed c then some c else none

/-- The reference at an ampersand and the input behind its semicolon. -/
def readReference? (s : Input) : Option (Reference × Input) := do
  let s := s.drop 1
  if s.rest.head? = some '#' then
    let s := s.drop 1
    let (base, s) := if s.rest.head? = some 'x' then (16, s.drop 1) else (10, s)
    let (digits, s) := s.span fun c => if base = 16 then isHexDigit c else c.isDigit
    let c ← characterOf? base digits
    let s ← (expect ';' s).toOption
    return (.character c, s)
  else
    let (name, s) ← (readName s).toOption
    let s ← (expect ';' s).toOption
    match namedCharacter? name with
    | some c => return (.character c, s)
    | none => return (.entity name, s)

/-- How deep entities may nest. -/
def entityDepth : Nat := 10

/-- How many references one outermost entity may expand. -/
def entityReferences : Nat := 255

/-- The reference count inside an entity that is entered with `room` levels left. -/
def enterEntity (room references : Nat) (position : Position) : Except Fault Nat :=
  if room < entityDepth ∧ entityReferences ≤ references then .error (.referenceLoop position)
  else if room = 0 then .error (.referenceLoop position)
  else .ok (if room < entityDepth then references + 1 else references)

/-- The reference count behind an entity. -/
def leaveEntity (room references : Nat) : Nat := if room < entityDepth then references else 0

def findEntity (entities : List (Text × Input)) (name : Text) (position : Position) :
    Except Fault Input :=
  match entities.find? (·.1 = name) with
  | some entity => .ok entity.2
  | none => .error (.unknownReference name position)

/-! ### Attribute values -/

/-- A blank of a value; the carriage return of a line end is left out. -/
def valueCharacter (c : Char) (next : Option Char) : Text :=
  if c = '\r' ∧ next = some '\n' then []
  else if c = '\n' ∨ c = '\r' ∨ c = '\t' then [' ']
  else [c]

/-- The normalized value, given how an entity is expanded; the fuel exceeds the characters left. -/
def valueFrom (entities : List (Text × Input)) (room : Nat)
    (expand : Input → Nat → Except Fault (Text × Nat)) :
    Nat → Input → Nat → Except Fault (Text × Nat)
  | 0, _, references => .ok ([], references)
  | fuel + 1, s, references =>
    match s.rest with
    | [] => .ok ([], references)
    | c :: rest =>
      if c ≠ '&' then do
        let (value, references) ← valueFrom entities room expand fuel (s.drop 1) references
        return (valueCharacter c rest.head? ++ value, references)
      else
        match readReference? s with
        | none => .error (.malformedReference s.position)
        | some (.character r, behind) =>
          if room < entityDepth ∧ r = '<' then .error (.unescapedLess s.position)
          else do
            let (value, references) ← valueFrom entities room expand fuel behind references
            return ((if room < entityDepth then valueCharacter r none else [r]) ++ value,
              references)
        | some (.entity name, behind) => do
          let entity ← findEntity entities name s.position
          let inside ← enterEntity room references behind.position
          let (expanded, inside) ← expand entity inside
          let (value, references) ← valueFrom entities room expand fuel behind
            (leaveEntity room inside)
          return (expanded ++ value, references)

/-- The normalized value with `room` levels of entities left. -/
def valueIn (entities : List (Text × Input)) : Nat → Input → Nat → Except Fault (Text × Nat)
  | 0, s, references =>
    valueFrom entities 0 (fun _ references => .ok ([], references)) (s.rest.length + 1) s references
  | room + 1, s, references =>
    valueFrom entities (room + 1) (valueIn entities room) (s.rest.length + 1) s references

/-! ### Text -/

/-- Text read so far, latest first, after one more character whose line end is turned. -/
def pushTurned (taken : Text) (c : Char) (last : Bool) : Text :=
  match taken with
  | '\r' :: before =>
    if last ∧ c = '\r' then '\n' :: '\n' :: before
    else if c = '\n' then '\n' :: before
    else c :: '\n' :: before
  | taken => if last ∧ c = '\r' then '\n' :: taken else c :: taken

/-- Text with every line end as one newline. -/
def turnLineEnds : Text → Text → Text
  | taken, [] => taken.reverse
  | taken, c :: rest => turnLineEnds (pushTurned taken c rest.isEmpty) rest

/-- Adds the text read so far to the tree, if there is any. -/
def flush (b : Builder) (taken : Text) : Builder :=
  if taken = [] then b else b.appendText taken.reverse

/-- Adds a run of character data to the tree. `taken` is the text read so far, latest first, and
`exact` tells that the next character follows a reference and stays as it is. -/
def textFrom (room : Nat) (expand : Input → Builder → Except Fault Builder) :
    Nat → Input → Text → Bool → Builder → Except Fault Builder
  | 0, _, taken, _, b => .ok (flush b taken)
  | fuel + 1, s, taken, exact, b =>
    match s.rest with
    | [] => .ok (flush b taken)
    | c :: rest =>
      if c ≠ '&' then
        let taken := if exact then c :: taken else pushTurned taken c rest.isEmpty
        textFrom room expand fuel (s.drop 1) taken false b
      else
        match readReference? s with
        | none => .error (.malformedReference s.position)
        | some (.character r, behind) =>
          if room < entityDepth then
            textFrom room expand fuel behind (pushTurned taken r behind.rest.isEmpty) exact b
          else textFrom room expand fuel behind (r :: taken) true b
        | some (.entity name, behind) => do
          let entity ← findEntity b.entities name s.position
          let b := flush b taken
          let inside ← enterEntity room b.references behind.position
          let expanded ← expand entity { b with references := inside, tag := none }
          let b :=
            { expanded with references := leaveEntity room expanded.references, tag := b.tag }
          textFrom room expand fuel behind [] false b

end SourceSurvey.Xml
