import SourceSurvey.Source.Language

/-! Comments and literals masked by spaces. A scan walks the characters with a region and the
number of characters still owed to a sign that was opened before them, and looks ahead only to
see whether a sign begins. A masked character gives one space per byte and a newline stays, so
the masked text keeps every byte offset and every line of the text. An unclosed region runs to
the end. -/

namespace SourceSurvey.Source

/-- What the scan is inside of. -/
inductive Region where
  | code
  | lineComment
  | blockComment
  | quoted
  | verbatim
  | character
deriving DecidableEq, Repr

/-- A region, entered once the owed characters have passed. -/
structure Standing where
  owed : Nat
  region : Region
deriving DecidableEq, Repr

namespace Standing

/-- The standing between two signs. -/
def settled (region : Region) : Standing := ⟨0, region⟩

def code : Standing := settled .code

end Standing

/-- The characters after `c` that belong to the sign it opens in code, and the region behind it. -/
def opening? (language : Language) (c : Char) (rest : Text) : Option Standing :=
  if c = '/' ∧ rest.head? = some '/' then some ⟨1, .lineComment⟩
  else if c = '/' ∧ rest.head? = some '*' then some ⟨1, .blockComment⟩
  else if language.verbatimMark = some c ∧ rest.head? = some '"' then some ⟨1, .verbatim⟩
  else if language.verbatimMark = some c ∧ rest.take 2 = ['$', '"'] then some ⟨2, .verbatim⟩
  else if c = '"' then some ⟨0, .quoted⟩
  else if c = '\'' then some ⟨0, .character⟩
  else none

/-- The standing behind a character of a literal that `close` ends and a backslash continues. -/
def literalStep (region : Region) (close c : Char) (rest : Text) : Standing :=
  if c = '\\' ∧ rest ≠ [] then ⟨1, region⟩
  else if c = close then .code
  else .settled region

/-- The standing behind one character. -/
def step (language : Language) (here : Standing) (c : Char) (rest : Text) : Standing :=
  match here with
  | ⟨owed + 1, region⟩ => ⟨owed, region⟩
  | ⟨0, .code⟩ => (opening? language c rest).getD .code
  | ⟨0, .lineComment⟩ => if c = '\n' then .code else .settled .lineComment
  | ⟨0, .blockComment⟩ =>
    if c = '*' ∧ rest.head? = some '/' then ⟨1, .code⟩ else .settled .blockComment
  | ⟨0, .verbatim⟩ =>
    if c = '"' then if rest.head? = some '"' then ⟨1, .verbatim⟩ else .code
    else .settled .verbatim
  | ⟨0, .quoted⟩ => literalStep .quoted '"' c rest
  | ⟨0, .character⟩ => literalStep .character '\'' c rest

/-- A character is kept where it stands in code and opens no sign. -/
def keeps (language : Language) (here : Standing) (c : Char) (rest : Text) : Bool :=
  here = .code && (opening? language c rest).isNone

theorem step_code (language : Language) (c : Char) (rest : Text) :
    step language .code c rest = (opening? language c rest).getD .code := rfl

theorem keeps_code (language : Language) (c : Char) (rest : Text) :
    keeps language .code c rest = (opening? language c rest).isNone := by
  simp [keeps]

/-- Spaces over the bytes of a character; a newline stays. -/
def maskChar (c : Char) : Text := if c = '\n' then ['\n'] else List.replicate c.utf8Size ' '

/-- The masked text read from a given standing. -/
def maskFrom (language : Language) : Standing → Text → Text
  | _, [] => []
  | here, c :: rest =>
    (if keeps language here c rest then [c] else maskChar c) ++
      maskFrom language (step language here c rest) rest

/-- The standing behind a whole text. -/
def standingAfter (language : Language) : Standing → Text → Standing
  | here, [] => here
  | here, c :: rest => standingAfter language (step language here c rest) rest

/-- A text with its comments and literals masked. -/
def mask (language : Language) (t : Text) : Text := maskFrom language .code t

/-- A masked character takes as many bytes as the character. -/
theorem byteLength_maskChar (c : Char) : Text.byteLength (maskChar c) = c.utf8Size := by
  unfold maskChar
  split
  · subst c; decide
  · induction c.utf8Size with
    | zero => rfl
    | succ n ih =>
      have : (' ' : Char).utf8Size = 1 := by decide
      simp only [List.replicate_succ, Text.byteLength, ih, this]
      omega

end SourceSurvey.Source
