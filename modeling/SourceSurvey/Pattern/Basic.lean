import SourceSurvey.Text.Cursor

/-! Patterns over text and what it means for a pattern to match. A run reads on from a cursor and
hands every place where it could stop, best first, to what follows; the first place from which
what follows comes to an end wins. So an alternative is tried from the left, a star takes as many
rounds as it can and a lazy star as few. A round that reads nothing is no round. -/

namespace SourceSurvey

/-- Patterns whose marked parts are named by `σ`. -/
inductive Pattern (σ : Type) where
  | nothing
  | one (accepts : Char → Bool)
  | seq (first second : Pattern σ)
  | alt (first second : Pattern σ)
  | star (body : Pattern σ)
  | lazyStar (body : Pattern σ)
  | mark (name : σ) (body : Pattern σ)
  | wordEdge
  | lineStart

namespace Pattern

/-- A stretch of a text, from one of its places to a later one. -/
structure Span where
  first : Cursor
  last : Cursor
deriving DecidableEq, Repr

namespace Span

def start (s : Span) : Nat := s.first.offset

def stop (s : Span) : Nat := s.last.offset

def text (s : Span) : Text := Text.takeBytes (s.stop - s.start) s.first.rest

end Span

/-- Where a match ends, and where the marked parts that it still comes to begin and end. -/
structure Ending (σ : Type) where
  last : Cursor
  begins : List (σ × Cursor)
  ends : List (σ × Cursor)

namespace Ending

variable {σ : Type}

/-- The ending of a match that is over. -/
def plain (here : Cursor) : Ending σ := ⟨here, [], []⟩

def markBegin (name : σ) (here : Cursor) (e : Ending σ) : Ending σ :=
  { e with begins := (name, here) :: e.begins }

def markEnd (name : σ) (here : Cursor) (e : Ending σ) : Ending σ :=
  { e with ends := (name, here) :: e.ends }

end Ending

variable {σ : Type}

/-- The ending to which each place leads. -/
abbrev Next (σ : Type) := Cursor → Option (Ending σ)

/-- As many rounds as the text allows, then what follows. -/
def rounds (round : Cursor → Next σ → Option (Ending σ)) (next : Next σ) (here : Cursor) :
    Option (Ending σ) :=
  (round here fun there =>
    if there.rest.length < here.rest.length then rounds round next there else none).or (next here)
termination_by here.rest.length

/-- As few rounds as what follows allows. -/
def lazyRounds (round : Cursor → Next σ → Option (Ending σ)) (next : Next σ) (here : Cursor) :
    Option (Ending σ) :=
  (next here).or (round here fun there =>
    if there.rest.length < here.rest.length then lazyRounds round next there else none)
termination_by here.rest.length

/-- The ending of the first place where the pattern can stop and from which there is one. -/
def run : Pattern σ → Cursor → Next σ → Option (Ending σ)
  | nothing, here, next => next here
  | one accepts, here, next =>
    match here.rest with
    | [] => none
    | c :: rest => if accepts c then next (here.past c rest) else none
  | seq first second, here, next => first.run here fun there => second.run there next
  | alt first second, here, next => (first.run here next).or (second.run here next)
  | star body, here, next => rounds body.run next here
  | lazyStar body, here, next => lazyRounds body.run next here
  | mark name body, here, next =>
    (body.run here fun there => (next there).map (.markEnd name there)).map (.markBegin name here)
  | wordEdge, here, next => if here.atWordEdge then next here else none
  | lineStart, here, next => if here.atLineStart then next here else none

/-! ### Common patterns -/

/-- One after another. -/
def all : List (Pattern σ) → Pattern σ
  | [] => nothing
  | [p] => p
  | p :: ps => seq p (all ps)

/-- One of several, the earlier ones first; of none at all, no match. -/
def any : List (Pattern σ) → Pattern σ
  | [] => one fun _ => false
  | [p] => p
  | p :: ps => alt p (any ps)

def optional (p : Pattern σ) : Pattern σ := alt p nothing

def plus (p : Pattern σ) : Pattern σ := seq p (star p)

def lazyPlus (p : Pattern σ) : Pattern σ := seq p (lazyStar p)

/-- One given character. -/
def sign (c : Char) : Pattern σ := one (· = c)

/-- The characters of a text in order. -/
def literal (t : Text) : Pattern σ := all (t.map sign)

/-- One character that is not among the given ones. -/
def noneOf (signs : Text) : Pattern σ := one fun c => !signs.contains c

def blanks : Pattern σ := star (one Text.isBlank)

def someBlanks : Pattern σ := plus (one Text.isBlank)

/-- One of several fixed words, the earlier ones first. -/
def oneOf (words : List Text) : Pattern σ := any (words.map literal)

/-- A letter or underscore and the word characters behind it. -/
def identifier : Pattern σ := seq (one Text.isNameStart) (star (one Text.isWord))

end Pattern

end SourceSurvey
