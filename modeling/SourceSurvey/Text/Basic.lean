/-! Text as a list of characters, measured in UTF-8 bytes: every offset in an answer counts
bytes, while every scan walks characters. Blanks are the characters with the property
White_Space. The cut of a text at a byte offset takes the whole characters that fit below it,
so an offset inside a character counts as the one where that character begins. -/

namespace SourceSurvey

/-- A text is its characters in order. -/
abbrev Text := List Char

namespace Text

/-! ### Bytes -/

/-- The number of bytes that a text takes in UTF-8. -/
def byteLength : Text → Nat
  | [] => 0
  | c :: rest => c.utf8Size + byteLength rest

/-- The longest start of a text that takes at most `n` bytes. -/
def takeBytes : Nat → Text → Text
  | _, [] => []
  | n, c :: rest => if c.utf8Size ≤ n then c :: takeBytes (n - c.utf8Size) rest else []

theorem byteLength_append (a b : Text) : byteLength (a ++ b) = byteLength a + byteLength b := by
  induction a with
  | nil => simp [byteLength]
  | cons c a ih => simp only [List.cons_append, byteLength, ih]; omega

theorem byteLength_takeBytes (n : Nat) (t : Text) : byteLength (takeBytes n t) ≤ n := by
  induction t generalizing n with
  | nil => simp [takeBytes, byteLength]
  | cons c t ih =>
    simp only [takeBytes]
    split
    · have := ih (n - c.utf8Size); simp only [byteLength]; omega
    · simp [byteLength]

/-- The cut at the end of a start of the text is that start. -/
theorem takeBytes_append (a b : Text) : takeBytes (byteLength a) (a ++ b) = a := by
  induction a with
  | nil =>
    cases b with
    | nil => rfl
    | cons c b =>
      have := c.utf8Size_pos
      simp only [List.nil_append, takeBytes, byteLength]
      rw [if_neg (by omega)]
  | cons c a ih => simp [takeBytes, byteLength, ih]

/-! ### Blanks -/

/-- White_Space: tab to carriage return, space, next line, no-break space and the wide spaces. -/
def isBlank (c : Char) : Bool :=
  let n := c.toNat
  (9 ≤ n && n ≤ 13) || n = 0x20 || n = 0x85 || n = 0xA0 || n = 0x1680 ||
    (0x2000 ≤ n && n ≤ 0x200A) ||
    n = 0x2028 || n = 0x2029 || n = 0x202F || n = 0x205F || n = 0x3000

def trimStart (t : Text) : Text := t.dropWhile isBlank

def trimEnd : Text → Text
  | [] => []
  | c :: rest =>
    match trimEnd rest with
    | [] => if isBlank c then [] else [c]
    | kept => c :: kept

/-- A text without the blanks at its two ends. -/
def trim (t : Text) : Text := trimEnd (trimStart t)

/-! ### Words -/

/-- Words of the text that follows the characters of an unfinished word. -/
def wordsFrom : Text → Text → List Text
  | [], [] => []
  | word, [] => [word]
  | word, c :: rest =>
    if isBlank c then
      match word with
      | [] => wordsFrom [] rest
      | word => word :: wordsFrom [] rest
    else wordsFrom (word ++ [c]) rest

/-- The maximal runs of characters that are not blank. -/
def words (t : Text) : List Text := wordsFrom [] t

/-- The words of a text with one space between neighbours. -/
def collapse (t : Text) : Text := [' '].intercalate (words t)

/-! ### Pieces -/

/-- The pieces between the characters that satisfy `cut`; always at least one. -/
def splitAll (cut : Char → Bool) : Text → List Text
  | [] => [[]]
  | c :: rest =>
    if cut c then [] :: splitAll cut rest
    else (splitAll cut rest).modifyHead (c :: ·)

/-- The lines of a text, without their newlines. -/
def lines (t : Text) : List Text := splitAll (· = '\n') t

/-- Lines, each closed by a newline. -/
def ofLines (lines : List Text) : Text := lines.flatMap (· ++ ['\n'])

/-- The text after a given start. -/
def after? : Text → Text → Option Text
  | [], t => some t
  | _ :: _, [] => none
  | x :: start, c :: rest => if x = c then after? start rest else none

/-- The text before a given end. -/
def before? (ending t : Text) : Option Text := (after? ending.reverse t.reverse).map List.reverse

/-- The texts on both sides of the first occurrence of a mark. -/
def splitOnce? (mark : Text) : Text → Option (Text × Text)
  | [] => (after? mark []).map fun rest => ([], rest)
  | c :: rest =>
    match after? mark (c :: rest) with
    | some right => some ([], right)
    | none => (splitOnce? mark rest).map fun (left, right) => (c :: left, right)

/-- A text with every character replaced by a text. -/
def replaceChar (old : Char) (new : Char) (t : Text) : Text :=
  t.map fun c => if c = old then new else c

/-! ### Order -/

/-- Code points in lexicographic order, which is also the order of the UTF-8 bytes. -/
def le : Text → Text → Bool
  | [], _ => true
  | _ :: _, [] => false
  | a :: s, b :: t => if a = b then le s t else a.toNat < b.toNat

/-- A list in which no element equals the one after it. -/
def dropRepeats {α : Type} [DecidableEq α] : List α → List α
  | [] => []
  | a :: rest =>
    match dropRepeats rest with
    | [] => [a]
    | b :: kept => if a = b then b :: kept else a :: b :: kept

/-- The elements of a list in order, each once. -/
def sortedDistinct {α : Type} [DecidableEq α] (order : α → α → Bool) (items : List α) : List α :=
  dropRepeats (items.mergeSort order)

end Text

end SourceSurvey
