import SourceSurvey.Proofs.Segments
import SourceSurvey.Proofs.WideHeader
import Mathlib.Data.Nat.PSub

/-! The lines above a place. The attributes above a declaration are the lines that begin with the
mark, blanks aside, and have only blank lines and such lines between them and the line of the
declaration. They are collected line by line from the end of the line above to its start, and on
from the newline in front of it. Every offset on the way is a boundary of a character, the start of
a line is not past its end, and no newline is stepped over at the start of the text. -/

namespace SourceSurvey

namespace Text

variable {t a b above line : Text} {n offset : Nat}

/-! ### Lines -/

theorem lines_append_newline (a b : Text) : lines (a ++ '\n' :: b) = lines a ++ lines b :=
  splitAll_append_cons (by decide) a b

theorem lines_of_notMem (h : '\n' ∉ t) : lines t = [t] :=
  splitAll_of_whole fun _ hc => decide_eq_false fun he => h (he ▸ hc)

/-- A text with a newline is the lines above its last one, and that line. -/
theorem exists_last_line (h : '\n' ∈ t) : ∃ above line, t = above ++ '\n' :: line ∧
    '\n' ∉ line := by
  induction t using List.reverseRecOn with
  | nil => exact absurd h List.not_mem_nil
  | append_singleton t c ih =>
    by_cases hc : c = '\n'
    · exact ⟨t, [], by rw [hc], List.not_mem_nil⟩
    · obtain ⟨above, line, rfl, hl⟩ := ih (by simpa [Ne.symm hc] using h)
      exact ⟨above, line ++ [c], by simp, by simpa [Ne.symm hc] using hl⟩

theorem length_lines (t : Text) : (lines t).length = t.count '\n' + 1 := by
  induction t with
  | nil => rfl
  | cons c t ih =>
    rw [lines, splitAll, ← lines]
    by_cases hc : c = '\n'
    · rw [if_pos (by simpa using hc), List.length_cons, ih, hc, List.count_cons_self]
    · rw [if_neg (by simpa using hc), List.length_modifyHead, ih, List.count_cons_of_ne hc]

/-! ### Offsets inside of characters -/

theorem exists_takeBytes (n : Nat) (t : Text) : ∃ rest, t = takeBytes n t ++ rest := by
  induction t generalizing n with
  | nil => exact ⟨[], rfl⟩
  | cons c t ih =>
    rw [takeBytes]
    split
    · obtain ⟨rest, hr⟩ := ih (n - c.utf8Size)
      exact ⟨rest, congrArg (c :: ·) hr⟩
    · exact ⟨c :: t, rfl⟩

/-- Below an offset inside of a character there are as many newlines as below the character. -/
theorem newlinesBefore_takeBytes (n : Nat) (t : Text) :
    newlinesBefore t (byteLength (takeBytes n t)) = newlinesBefore t n := by
  induction t generalizing n with
  | nil =>
      rw [newlinesBefore, newlinesBefore, encode, List.flatMap_nil, List.take_nil, List.take_nil]
  | cons c t ih =>
    have size := c.utf8Size_pos
    rw [takeBytes]
    by_cases hn : c.utf8Size ≤ n
    · rw [if_pos hn, byteLength]
      by_cases hc : c = '\n'
      · subst hc
        obtain ⟨m, rfl⟩ := Nat.exists_eq_add_of_le' (show 1 ≤ n from hn)
        rw [show ('\n' : Char).utf8Size = 1 by decide, Nat.add_sub_cancel, Nat.add_comm,
          newlinesBefore_cons_newline, newlinesBefore_cons_newline, ih]
      · rw [newlinesBefore_cons hc, newlinesBefore_cons hc, Nat.add_sub_cancel_left, ih]
    · rw [if_neg hn]
      by_cases hc : c = '\n'
      · have one : c.utf8Size = 1 := by rw [hc]; decide
        obtain rfl : n = 0 := by omega
        rfl
      · rw [newlinesBefore_cons hc, newlinesBefore_cons hc,
          Nat.sub_eq_zero_of_le (Nat.not_le.mp hn).le, byteLength, Nat.zero_sub]

theorem takeBytes_succ (h : byteLength (takeBytes (n + 1) t) ≤ n) :
    takeBytes (n + 1) t = takeBytes n t := by
  induction t generalizing n with
  | nil => rfl
  | cons c t ih =>
    rw [takeBytes] at h ⊢
    by_cases hn : c.utf8Size ≤ n + 1
    · rw [if_pos hn, byteLength] at h
      have le : c.utf8Size ≤ n := by omega
      have shift : n + 1 - c.utf8Size = n - c.utf8Size + 1 := by omega
      rw [shift] at h
      rw [if_pos hn, takeBytes, if_pos le, shift, ih (by omega)]
    · rw [if_neg hn, takeBytes, if_neg (by omega)]

/-- The nearest offset, at most the given one, at which a character begins or the text ends. -/
def floorBoundary (t : Text) : Nat → Nat
  | 0 => 0
  | n + 1 => if byteLength (takeBytes (n + 1) t) = n + 1 then n + 1 else floorBoundary t n

theorem floorBoundary_eq (t : Text) (n : Nat) : floorBoundary t n = byteLength (takeBytes n t) := by
  induction n with
  | zero => exact (Nat.le_zero.mp (byteLength_takeBytes 0 t)).symm
  | succ n ih =>
    rw [floorBoundary]
    split
    · next h => exact h.symm
    · next h =>
      have bound := byteLength_takeBytes (n + 1) t
      rw [ih, takeBytes_succ (by omega)]

theorem takeBytes_of_le (h : byteLength t ≤ n) : takeBytes n t = t := by
  induction t generalizing n with
  | nil => rfl
  | cons c t ih =>
    rw [byteLength] at h
    rw [takeBytes, if_pos (by omega), ih (by omega)]

theorem takeBytes_min (n : Nat)
    (t : Text) : takeBytes (min n (byteLength t)) t = takeBytes n t := by
  rcases Nat.le_total n (byteLength t) with h | h
  · rw [Nat.min_eq_left h]
  · rw [Nat.min_eq_right h, takeBytes_of_le (Nat.le_refl _), takeBytes_of_le h]

/-- The text between two offsets, if these are in order and each is a boundary of characters. -/
def slice? (t : Text) (start stop : Nat) : Option Text :=
  if start ≤ stop ∧ byteLength (takeBytes start t) = start ∧
    byteLength (takeBytes stop t) = stop then
    some ((takeBytes stop t).drop (takeBytes start t).length)
  else none

theorem le_of_slice? {start stop : Nat} (h : slice? t start stop = some a) : start ≤ stop := by
  rw [slice?] at h
  split at h
  · next inside => exact inside.1
  · exact absurd h (by simp)

theorem slice?_append (a b rest : Text) :
    slice? (a ++ (b ++ rest)) (byteLength a) (byteLength (a ++ b)) = some b := by
  have upTo : takeBytes (byteLength (a ++ b)) (a ++ (b ++ rest)) = a ++ b := by
    rw [← List.append_assoc, takeBytes_append]
  rw [slice?, takeBytes_append, upTo, if_pos ⟨by rw [byteLength_append]; omega, rfl, rfl⟩,
    List.drop_left]

theorem slice?_zero (a rest : Text) : slice? (a ++ rest) 0 (byteLength a) = some a :=
  slice?_append [] a rest

/-- The offset of the last newline of a text. -/
def lastNewline? (t : Text) : Option Nat :=
  match t.reverse.dropWhile (· ≠ '\n') with
  | [] => none
  | _ :: above => some (byteLength above.reverse)

theorem dropWhile_of_notMem (h : '\n' ∉ t) : t.reverse.dropWhile (· ≠ '\n') = [] :=
  List.dropWhile_eq_nil_iff.mpr fun c hc => by
    simpa using fun he : c = '\n' => h (he ▸ List.mem_reverse.mp hc)

theorem lastNewline?_of_notMem (h : '\n' ∉ t) : lastNewline? t = none := by
  rw [lastNewline?, dropWhile_of_notMem h]

theorem dropWhile_last_line (h : '\n' ∉ line) (above : Text) :
    (above ++ '\n' :: line).reverse.dropWhile (· ≠ '\n') = '\n' :: above.reverse := by
  have other : ∀ c ∈ line.reverse, decide (c ≠ '\n') = true := fun c hc => by
    simpa using fun he : c = '\n' => h (he ▸ List.mem_reverse.mp hc)
  rw [List.reverse_append, List.reverse_cons, List.append_assoc, List.singleton_append,
    List.dropWhile_append_of_pos other, List.dropWhile_cons_of_neg (by simp)]

theorem lastNewline?_append (h : '\n' ∉ line) (above : Text) :
    lastNewline? (above ++ '\n' :: line) = some (byteLength above) := by
  rw [lastNewline?, dropWhile_last_line h]
  exact congrArg (some ∘ byteLength) (List.reverse_reverse above)

end Text

namespace Source

open Text

variable {mark : Char} {t a b above line : Text} {ls : List Text} {stop next : Nat}
  {found : List Text}

/-! ### The lines told without a walk -/

/-- The lines above the line that holds the boundary at or below an offset, from the top down. -/
def linesAbove (t : Text) (offset : Nat) : List Text :=
  (lines t).take (newlinesBefore t (floorBoundary t (min offset (byteLength t))))

/-- Whether a line begins with a mark, blanks aside. -/
def isMarked (mark : Char) (line : Text) : Bool := (trim line).head? = some mark

/-- Whether a line is blank or begins with a mark. -/
def isPassed (mark : Char) (line : Text) : Bool := decide (Blank line) || isMarked mark line

/-- The marked ones of some lines that have only blank and marked lines below them, trimmed. -/
def markedLines (mark : Char) (ls : List Text) : List Text :=
  ls.tails.filterMap fun
    | [] => none
    | line :: below => if isMarked mark line && below.all (isPassed mark)
        then some (trim line) else none

theorem markedLines_cons (mark : Char) (line : Text) (below : List Text) :
    markedLines mark (line :: below) =
    (if isMarked mark line && below.all (isPassed mark) then [trim line] else []) ++ markedLines
      mark below := by
  rw [markedLines, List.tails, List.filterMap_cons]
  split <;> simp_all [markedLines]

theorem isMarked_of_blank (h : Blank line) : isMarked mark line = false := by
  rw [isMarked, trim_eq_nil_iff.mpr h]
  rfl

/-- The last line is passed over or taken, or it hides all the lines above it. -/
theorem markedLines_concat (mark : Char) (ls : List Text) (line : Text) :
    markedLines mark (ls ++ [line]) =
    if Blank line then markedLines mark ls
    else if isMarked mark line then markedLines mark ls ++ [trim line] else [] := by
  have none : markedLines mark [] = [] := rfl
  induction ls with
  | nil =>
    rw [List.nil_append, markedLines_cons, none]
    by_cases hb : Blank line
    · simp [hb, isMarked_of_blank hb]
    · simp [hb]
  | cons first ls ih =>
    rw [List.cons_append, markedLines_cons, markedLines_cons, ih, List.all_append]
    by_cases hb : Blank line
    · simp [hb, isPassed]
    · by_cases hm : isMarked mark line = true
      · simp [hb, hm, isPassed]
      · simp [hb, hm, isPassed]

/-- The lines that are read upward, given the end of the last one, are the lines of the text. -/
theorem reverse_attributeLines (mark : Char) {ending : Text} (he : '\n' ∉ ending) (above : Text) :
    (attributeLines mark ending above).reverse = markedLines mark
      (lines (above.reverse ++ ending)) := by
  induction above generalizing ending with
  | nil =>
    rw [attributeLines_nil, List.reverse_nil, List.nil_append, lines_of_notMem he, markedLines_cons]
    simp [isMarked, markedLines]
    split <;> rfl
  | cons c above ih =>
    by_cases hc : c = '\n'
    · subst hc
      have rest := ih List.not_mem_nil
      rw [List.append_nil] at rest
      rw [attributeLines_cons_newline, List.reverse_cons, List.append_assoc, List.singleton_append,
        lines_append_newline, lines_of_notMem he, markedLines_concat, ← rest]
      simp only [trim_eq_nil_iff, isMarked, decide_eq_true_eq]
      split
      · rfl
      · split
        · rw [List.reverse_cons]
        · rfl
    · rw [attributeLines_cons hc, ih (by simpa [Ne.symm hc] using he), List.reverse_cons,
        List.append_assoc, List.singleton_append]

theorem attributesAbove_reverse (mark : Char) (t : Text) :
    attributesAbove mark t.reverse = markedLines mark (lines t).dropLast := by
  by_cases h : '\n' ∈ t
  · obtain ⟨above, line, rfl, hl⟩ := exists_last_line h
    rw [attributesAbove, dropWhile_last_line hl, lines_append_newline, lines_of_notMem hl,
      List.dropLast_concat]
    have := reverse_attributeLines mark List.not_mem_nil above.reverse
    rwa [List.reverse_reverse, List.append_nil] at this
  · rw [attributesAbove, dropWhile_of_notMem h, lines_of_notMem h]
    rfl

/-- The lines above an offset are those of the text in front of it, less the last one. -/
theorem linesAbove_eq (t : Text) (offset : Nat) :
    linesAbove t offset = (lines (takeBytes offset t)).dropLast := by
  obtain ⟨rest, hr⟩ := exists_takeBytes offset t
  rw [linesAbove, floorBoundary_eq, takeBytes_min]
  generalize takeBytes offset t = front at hr ⊢
  subst hr
  rw [newlinesBefore_append]
  by_cases h : '\n' ∈ front
  · obtain ⟨above, line, rfl, hl⟩ := exists_last_line h
    have count : (above ++ '\n' :: line).count '\n' = (lines above).length := by
      rw [List.count_append, List.count_cons_self, List.count_eq_zero.mpr hl, length_lines]
    rw [count, List.append_assoc, List.cons_append, lines_append_newline, List.take_left,
      lines_append_newline, lines_of_notMem hl, List.dropLast_concat]
  · rw [List.count_eq_zero.mpr h, lines_of_notMem h]
    rfl

/-! ### The walk -/

/-- Where the line above ends, given where a line starts: at the newline in front of it, if there is
one. -/
def endAbove? (start : Nat) : Option (Option Nat) :=
  if start = 0 then some none else (Nat.psub start 1).map some

/-- What the line that ends at an offset adds, and where the next line to be read ends. It fails
where a text would be cut elsewhere than at boundaries, or an offset would fall below zero. -/
def lineUp? (mark : Char) (t : Text) (stop : Nat) : Option (List Text × Option Nat) := do
  let before ← slice? t 0 stop
  let start := (lastNewline? before).elim 0 (· + 1)
  let line ← slice? t start stop
  if isMarked mark line then return ([trim line], ← endAbove? start)
  else if Blank line then return ([], ← endAbove? start)
  else return ([], none)

theorem lt_of_endAbove? {start : Nat} (h : endAbove? start = some (some next)) : next < start := by
  rw [endAbove?] at h
  split at h
  · exact absurd h (by simp)
  · obtain ⟨k, hk, he⟩ := Option.map_eq_some_iff.mp h
    have := Nat.psub_eq_some.mp hk
    obtain rfl := Option.some.inj he
    omega

/-- The next line to be read ends further up. -/
theorem lt_of_lineUp? (h : lineUp? mark t stop = some (found, some next)) : next < stop := by
  obtain ⟨before, -, h⟩ := Option.bind_eq_some_iff.mp h
  obtain ⟨line, hline, h⟩ := Option.bind_eq_some_iff.mp h
  have le := le_of_slice? hline
  split at h
  · obtain ⟨n, hn, h⟩ := Option.bind_eq_some_iff.mp h
    obtain ⟨-, rfl⟩ := Prod.mk.inj (Option.some.inj h)
    exact Nat.lt_of_lt_of_le (lt_of_endAbove? hn) le
  · split at h
    · obtain ⟨n, hn, h⟩ := Option.bind_eq_some_iff.mp h
      obtain ⟨-, rfl⟩ := Prod.mk.inj (Option.some.inj h)
      exact Nat.lt_of_lt_of_le (lt_of_endAbove? hn) le
    · exact absurd (Prod.mk.inj (Option.some.inj h)).2 (by simp)

/-- The marked lines up from an end of a line, from the top down. -/
def collectUp? (mark : Char) (t : Text) (stop : Nat) : Option (List Text) :=
  match _h : lineUp? mark t stop with
  | none => none
  | some (found, none) => some found
  | some (found, some next) => (collectUp? mark t next).map (· ++ found)
termination_by stop
decreasing_by exact lt_of_lineUp? _h

/-- The attributes above an offset, collected line by line. -/
def collectLeading? (t : Text) (offset : Nat) (mark : Char) : Option (List Text) := do
  let before ← slice? t 0 (floorBoundary t (min offset (byteLength t)))
  (lastNewline? before).elim (some []) (collectUp? mark t)

/-- The first line of a text ends the walk. -/
theorem lineUp?_first (hl : '\n' ∉ line) (rest : Text) :
    lineUp? mark (line ++ rest) (byteLength line) =
    some (if isMarked mark line then [trim line] else [], none) := by
  rw [lineUp?, slice?_zero, Option.bind_eq_bind, Option.bind_some, lastNewline?_of_notMem hl]
  simp only [Option.elim_none, slice?_zero, Option.bind_eq_bind, Option.bind_some,
    endAbove?, if_true]
  split
  · rfl
  · split <;> rfl

/-- A line that is passed leads to the end of the line above it. -/
theorem lineUp?_below (hl : '\n' ∉ line) (above rest : Text) :
    lineUp? mark (above ++ '\n' :: (line ++ rest)) (byteLength (above ++ '\n' :: line)) =
      some (if isMarked mark line then [trim line] else [],
        if isPassed mark line then some (byteLength above) else none) := by
  have front := slice?_zero (above ++ '\n' :: line) rest
  have part := slice?_append (above ++ ['\n']) line rest
  have start : byteLength (above ++ ['\n']) = byteLength above + 1 := by
    rw [byteLength_append]
    rfl
  have up : endAbove? (byteLength above + 1) = some (some (byteLength above)) := rfl
  simp only [start, List.append_assoc, List.cons_append, List.nil_append] at front part
  rw [lineUp?, front, Option.bind_eq_bind, Option.bind_some, lastNewline?_append hl]
  simp only [Option.elim_some, part, Option.bind_eq_bind, Option.bind_some, up, isPassed]
  by_cases hm : isMarked mark line = true
  · simp [hm]
  · by_cases hb : Blank line
    · simp [hm, hb]
    · simp [hm, hb]

theorem collectUp?_eq (mark : Char) (t : Text) (stop : Nat) : collectUp? mark t stop =
    (lineUp? mark t stop).bind fun (found, next) => next.elim (some found) fun n =>
      (collectUp? mark t n).map (· ++ found) := by
  rw [collectUp?]
  split <;> simp [*]

/-- The walk never fails, and finds the marked lines of the text up to where it begins. -/
theorem collectUp?_append (mark : Char) (a rest : Text) :
    collectUp? mark (a ++ rest) (byteLength a) = some (markedLines mark (lines a)) := by
  induction hn : a.length using Nat.strongRecOn generalizing a rest with
  | ind n ih =>
    subst hn
    rw [collectUp?_eq]
    by_cases h : '\n' ∈ a
    · obtain ⟨above, line, rfl, hl⟩ := exists_last_line h
      have further := ih above.length (by simp) above ('\n' :: (line ++ rest)) rfl
      rw [List.append_assoc, List.cons_append, lineUp?_below hl, lines_append_newline,
        lines_of_notMem hl, markedLines_concat, Option.bind_some]
      by_cases hm : isMarked mark line = true
      · have solid : ¬Blank line := fun hb => by simp [isMarked_of_blank hb] at hm
        simp [isPassed, hm, solid, further]
      · by_cases hb : Blank line
        · simp [isPassed, hm, hb, further]
        · simp [isPassed, hm, hb]
    · rw [lineUp?_first h, lines_of_notMem h, markedLines_cons]
      simp [markedLines]

theorem collectLeading?_eq (t : Text) (offset : Nat) (mark : Char) :
    collectLeading? t offset mark = some (leadingAttributes t offset mark) := by
  obtain ⟨rest, hr⟩ := exists_takeBytes offset t
  rw [collectLeading?, floorBoundary_eq, takeBytes_min, leadingAttributes, back,
    attributesAbove_reverse]
  generalize takeBytes offset t = front at hr ⊢
  subst hr
  rw [slice?_zero, Option.bind_eq_bind, Option.bind_some]
  by_cases h : '\n' ∈ front
  · obtain ⟨above, line, rfl, hl⟩ := exists_last_line h
    rw [lastNewline?_append hl, Option.elim_some, lines_append_newline, lines_of_notMem hl,
      List.dropLast_concat, List.append_assoc, collectUp?_append]
  · rw [lastNewline?_of_notMem h, Option.elim_none, lines_of_notMem h]
    rfl

/-- The attributes above an offset are the marked lines above its line that have only blank and
marked lines below them, none for an offset on the first line; and the walk that collects them fails
nowhere. -/
theorem leadingAttributes_exact (t : Text) (offset : Nat) (mark : Char) :
    leadingAttributes t offset mark = markedLines mark (linesAbove t offset) ∧
      ((LineTable.ofText t).lineOf offset = 1 → leadingAttributes t offset mark = []) ∧
      collectLeading? t offset mark = some (leadingAttributes t offset mark) := by
  have exact : leadingAttributes t offset mark = markedLines mark (linesAbove t offset) := by
    rw [leadingAttributes, back, attributesAbove_reverse, linesAbove_eq]
  refine ⟨exact, fun first => ?_, collectLeading?_eq t offset mark⟩
  rw [lineOf_ofText, ← newlinesBefore_takeBytes] at first
  have none : newlinesBefore t (byteLength (takeBytes offset t)) = 0 := by omega
  rw [exact, linesAbove, floorBoundary_eq, takeBytes_min, none]
  rfl

example :
    leadingAttributes "int x;\n[A]\n\n   \n [B(é)]\r\n\nclass X { }".toList 28 '[' =
      ["[A]".toList, "[B(é)]".toList] := by
  decide

end Source

end SourceSurvey
