import SourceSurvey.Text.Basic

/-! Globs as they are written: wildcards, sets of bytes, groups of alternatives in braces, and two
stars for any number of directories. Two stars stand for directories only between slashes or ends;
elsewhere they are two single stars. A comma separates alternatives only inside a group. -/

namespace SourceSurvey.Glob

open Text

inductive Token where
  | literal (c : Char)
  | anyByte
  | anyBytes
  /-- Directories at the start of the glob. -/
  | leadingDirs
  /-- Directories between two slashes. -/
  | innerDirs
  /-- Everything below a directory. -/
  | everythingBelow
  | oneByte (negated : Bool) (ranges : List (Char × Char))
  | group (branches : List (List Token))

inductive GlobError where
  | unclosedSet
  | invalidRange (low high : Char)
  | unopenedGroup
  | unclosedGroup
  | danglingEscape
deriving DecidableEq, Repr

namespace GlobError

def message : GlobError → Text
  | unclosedSet => "unclosed character class; missing ']'".toList
  | invalidRange low high =>
      "invalid range; '".toList ++ [low] ++ "' > '".toList ++ [high] ++ ['\'']
  | unopenedGroup =>
    "unopened alternate group; missing '\x7b' (maybe escape '\x7d' with '[\x7d]'?)".toList
  | unclosedGroup =>
    "unclosed alternate group; missing '\x7d' (maybe escape '\x7b' with '[\x7b]'?)".toList
  | danglingEscape => "dangling '\\'".toList

end GlobError

/-! ### Sets -/

/-- The latest range stretched to one more character. -/
def stretch (ranges : List (Char × Char)) (c : Char) : Except GlobError (List (Char × Char)) :=
  match ranges with
  | [] => .ok [(c, c)]
  | (low, _) :: rest => if c < low then .error (.invalidRange low c) else .ok ((low, c) :: rest)

/-- The ranges of a set, latest first before it closes, and the text behind it. A bracket is a
member where it comes first, and a hyphen where it comes first or last. -/
def readSetFrom (first inRange : Bool) (ranges : List (Char × Char)) :
    Text → Except GlobError (List (Char × Char) × Text)
  | [] => .error .unclosedSet
  | c :: rest =>
    if c = ']' ∧ !first then
      .ok ((if inRange then ('-', '-') :: ranges else ranges).reverse, rest)
    else if c = '-' ∧ !first ∧ !inRange then readSetFrom false true ranges rest
    else if inRange then do readSetFrom false false (← stretch ranges c) rest
    else readSetFrom false false ((c, c) :: ranges) rest

/-- A set behind its opening bracket. -/
def readSet (t : Text) : Except GlobError (Token × Text) := do
  let negated := t.head? = some '!' ∨ t.head? = some '^'
  let (ranges, rest) ← readSetFrom true false [] (if negated then t.tail else t)
  return (.oneByte negated ranges, rest)

/-! ### Globs -/

/-- A sequence that is being read: the branches before it in its group, and its tokens, latest
first. -/
structure Level where
  branches : List (List Token)
  tokens : List Token

namespace Level

def empty : Level := ⟨[], []⟩

def push (level : Level) (token : Token) : Level := { level with tokens := token :: level.tokens }

/-- Closes the branch that is being read. -/
def close (level : Level) : List (List Token) := level.branches ++ [level.tokens.reverse]

end Level

/-- Two stars that turn the slash before them into directories; next to other directories they add
nothing at the start or the end of a glob. -/
def Level.pushDirs (level : Level) (token : Token) : Level :=
  match level.tokens with
  | .leadingDirs :: _ => level
  | .everythingBelow :: _ => level
  | _ :: before => { level with tokens := token :: before }
  | [] => level.push token

/-- What two stars add to a level, given the character before them and the text behind them; a
slash behind directories belongs to them. -/
def readStars (level : Level) (nested : Bool) (before : Option Char) (rest : Text) : Level × Text :=
  let plain := (level.push .anyBytes).push .anyBytes
  if level.tokens.isEmpty then
    match rest with
    | [] => (level.push .leadingDirs, [])
    | '/' :: rest => (level.push .leadingDirs, rest)
    | rest => (plain, rest)
  else if before ≠ some '/' ∧ !(nested ∧ (before = some ',' ∨ before = some '{')) then (plain, rest)
  else
    match rest with
    | [] => (level.pushDirs .everythingBelow, [])
    | '/' :: rest => (level.pushDirs .innerDirs, rest)
    | c :: rest =>
      if nested ∧ (c = ',' ∨ c = '}') then (level.pushDirs .everythingBelow, c :: rest)
      else (plain, c :: rest)

/-- Reads on inside a level and the levels around it; the fuel exceeds the characters left. -/
def readFrom : Nat → Option Char → Level → List Level → Text → Except GlobError (List Token)
  | 0, _, level, _, _ => .ok level.tokens.reverse
  | _ + 1, _, level, [], [] => .ok level.tokens.reverse
  | _ + 1, _, _, _ :: _, [] => .error .unclosedGroup
  | fuel + 1, before, level, outer, c :: rest =>
    match c, rest with
    | '?', rest => readFrom fuel (some c) (level.push .anyByte) outer rest
    | '*', '*' :: rest =>
      let (next, behind) := readStars level (!outer.isEmpty) before rest
      readFrom fuel (some (if behind.length < rest.length then '/' else '*')) next outer behind
    | '*', rest => readFrom fuel (some c) (level.push .anyBytes) outer rest
    | '[', rest => do
      let (token, rest) ← readSet rest
      readFrom fuel (some ']') (level.push token) outer rest
    | '{', rest => readFrom fuel (some c) .empty (level :: outer) rest
    | '}', rest =>
      match outer with
      | [] => .error .unopenedGroup
      | around :: outer => readFrom fuel (some c) (around.push (.group level.close)) outer rest
    | ',', rest =>
      if outer.isEmpty then readFrom fuel (some c) (level.push (.literal c)) outer rest
      else readFrom fuel (some c) ⟨level.close, []⟩ outer rest
    | '\\', [] => .error .danglingEscape
    | '\\', escaped :: rest =>
        readFrom fuel (some escaped) (level.push (.literal escaped)) outer rest
    | c, rest => readFrom fuel (some c) (level.push (.literal c)) outer rest

/-- The tokens of a glob. -/
def tokens (t : Text) : Except GlobError (List Token) := readFrom (t.length + 1) none .empty [] t

end SourceSurvey.Glob
