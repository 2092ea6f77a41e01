import SourceSurvey.Glob.Token
import SourceSurvey.Pattern.Search

/-! What a glob matches: the whole of a path, byte by byte. A wildcard may stand for a slash as
well. A range in a set joins the bytes of its two ends, of which only the neighbours make a range
of bytes. An alternative that says nothing is left out. -/

namespace SourceSurvey

/-- A glob and the pattern of the bytes of the paths it matches. -/
structure Glob where
  text : Text
  pattern : Pattern Empty

namespace Glob

open Text Pattern

/-- The bytes of a character, each as a character of its own. -/
def byteChars (c : Char) : Text := (String.utf8EncodeChar c).map fun byte => Char.ofNat byte.toNat

def bytesOf (t : Text) : Text := t.flatMap byteChars

/-- The ranges of bytes that a range of characters is written with. -/
def byteRanges : Char × Char → List (Char × Char)
  | (low, high) =>
    let single (c : Char) : Char × Char := (c, c)
    if low = high then (byteChars low).map single
    else
      match (byteChars low).reverse, byteChars high with
      | last :: before, first :: after =>
        before.reverse.map single ++ [(last, first)] ++ after.map single
      | _, _ => []

def anyByte : Pattern Empty := one fun _ => true

def anyBytes : Pattern Empty := star anyByte

mutual

/-- The pattern of a token; a group of empty alternatives has none. -/
def Token.pattern? : Token → Option (Pattern Empty)
  | .literal c => some (Pattern.literal (byteChars c))
  | .anyByte => some Glob.anyByte
  | .anyBytes => some Glob.anyBytes
  | .leadingDirs => some (alt (optional (sign '/')) (seq Glob.anyBytes (sign '/')))
  | .innerDirs => some (alt (sign '/') (all [sign '/', Glob.anyBytes, sign '/']))
  | .everythingBelow => some (seq (sign '/') Glob.anyBytes)
  | .oneByte negated ranges =>
    let bytes := ranges.flatMap byteRanges
    some (one fun b => (bytes.any fun (low, high) => low ≤ b && b ≤ high) != negated)
  | .group branches =>
    match branchPatterns branches with
    | [] => none
    | patterns => some (Pattern.any patterns)

/-- The patterns of the tokens that have one. -/
def tokenPatterns : List Token → List (Pattern Empty)
  | [] => []
  | token :: rest => token.pattern?.toList ++ tokenPatterns rest

/-- The patterns of the branches that say something. -/
def branchPatterns : List (List Token) → List (Pattern Empty)
  | [] => []
  | branch :: rest =>
    match tokenPatterns branch with
    | [] => branchPatterns rest
    | patterns => Pattern.all patterns :: branchPatterns rest

end

/-- A glob that is only directories matches everything. -/
def patternOf : List Token → Pattern Empty
  | [.leadingDirs] => anyBytes
  | tokens => Pattern.all (tokenPatterns tokens)

def parse (t : Text) : Except GlobError Glob := (tokens t).map fun tokens => ⟨t, patternOf tokens⟩

/-- Whether a glob matches a whole path. -/
def isMatch (glob : Glob) (path : Text) : Bool := glob.pattern.matchesAll (bytesOf path)

/-- The globs of a list, or the first one that is faulty with what is wrong about it. -/
def parseAll : List Text → Except (Text × GlobError) (List Glob)
  | [] => .ok []
  | t :: rest =>
    match parse t with
    | .error e => .error (t, e)
    | .ok glob => (parseAll rest).map (glob :: ·)

/-- The message for a faulty glob. -/
def faultMessage (t : Text) (e : GlobError) : Text :=
  "error parsing glob '".toList ++ t ++ "': ".toList ++ e.message

end Glob

end SourceSurvey
