import SourceSurvey.Proofs.CSharpParameter
import SourceSurvey.Proofs.Creation
import SourceSurvey.Proofs.LinesAbove
import Mathlib.Data.List.DropRight
import Mathlib.Data.Nat.PSub

/-! Characters with their offsets. A scan that tells where to cut a text walks along its characters,
each with the offset at which it begins, and the text is cut at what it tells: in front of a default
value, behind the bracket that closes a group of attributes, behind the last sign in front of a
place. Every such offset is the length of what stands in front of it, so no cut fails, and the cuts
give the texts that are told without offsets. -/

namespace SourceSurvey

namespace Text

variable {t a : Text} {start stop : Nat}

/-- The characters of a text, each with the offset at which it begins, where the text begins at a
given one. -/
def offsetsFrom : Nat → Text → List (Nat × Char)
  | _, [] => []
  | n, c :: t => (n, c) :: offsetsFrom (n + c.utf8Size) t

def offsets (t : Text) : List (Nat × Char) := offsetsFrom 0 t

theorem offsetsFrom_append (n : Nat) (a b : Text) :
    offsetsFrom n (a ++ b) = offsetsFrom n a ++ offsetsFrom (n + byteLength a) b := by
  induction a generalizing n with
  | nil => rfl
  | cons c a ih =>
      rw [List.cons_append, offsetsFrom, offsetsFrom, ih, byteLength,
        List.cons_append, Nat.add_assoc]

theorem mem_of_mem_offsetsFrom {n : Nat} {p : Nat × Char} (h : p ∈ offsetsFrom n t) : p.2 ∈ t := by
  induction t generalizing n with
  | nil => exact absurd h List.not_mem_nil
  | cons c t ih =>
    rcases List.mem_cons.mp h with rfl | h
    · exact List.mem_cons_self
    · exact List.mem_cons_of_mem c (ih h)

/-- The cut at the end of a text. -/
theorem slice?_end (a b : Text) : slice? (a ++ b) (byteLength a)
    (byteLength (a ++ b)) = some b := by
  have cut := slice?_append a b []
  rwa [List.append_nil] at cut

/-- A cut inside of a character fails. -/
example : slice? "aé=".toList 0 2 = none := by decide

/-- What is cut off behind the first character is shorter. -/
theorem length_lt_of_slice? (h : slice? t start stop = some a) (hs : 0 < start) :
    a.length < t.length := by
  rw [slice?] at h
  split at h
  · next inside =>
    obtain ⟨-, lower, -⟩ := inside
    obtain ⟨rest, split⟩ := exists_takeBytes start t
    obtain ⟨rest', split'⟩ := exists_takeBytes stop t
    have front : takeBytes start t ≠ [] := fun none => by
      rw [none] at lower
      exact absurd lower hs.ne
    have some' := List.length_pos_iff.mpr front
    have bound := congrArg List.length split
    have bound' := congrArg List.length split'
    obtain rfl := Option.some.inj h
    rw [List.length_append] at bound bound'
    rw [List.length_drop]
    omega
  · exact absurd h (by simp)

/-- The blanks at the end of a text are the first ones of the text turned over. -/
theorem reverse_trimEnd (t : Text) : (trimEnd t).reverse = t.reverse.dropWhile isBlank := by
  obtain ⟨b, split, blank, solid⟩ := exists_trimEnd t
  conv_rhs => rw [split, List.reverse_append, dropWhile_blank_append blank.reverse]
  cases h : (trimEnd t).reverse with
  | nil => rfl
  | cons c kept =>
    have last : (trimEnd t).getLast? = some c := by rw [← List.head?_reverse, h, List.head?_cons]
    rw [List.dropWhile_cons_of_neg (by simp [solid c last])]

end Text

namespace Source

open Text CSharp

variable {t : Text} {depth : Nat} {c : Char} {here : Cursor}

/-! ### Default values -/

/-- The offset of the first equals sign at depth zero. -/
def defaultOffset? : Nat → List (Nat × Char) → Option Nat
  | _, [] => none
  | depth, (n, c) :: rest => if c = '=' ∧ depth = 0 then some n else
      defaultOffset? (bracketDepth depth c) rest

/-- A parameter that is cut at the offset where its default value begins. It fails where it would be
cut elsewhere than at a boundary. -/
def stripDefault? (t : Text) : Option Text :=
  match defaultOffset? 0 (offsets t) with
  | none => some t
  | some stop => (slice? t 0 stop).map trimEnd

theorem defaultOffset?_offsetsFrom (depth n : Nat) (t : Text) :
    defaultOffset? depth (offsetsFrom n t) = (beforeDefault? depth t).map fun front =>
      n + byteLength front := by
  induction t generalizing depth n with
  | nil => rfl
  | cons c t ih =>
    rw [offsetsFrom, defaultOffset?, beforeDefault?]
    split
    · rfl
    · rw [ih, Option.map_map]
      congr 1
      funext front
      exact Nat.add_assoc ..

theorem exists_of_beforeDefault? {front : Text} (h : beforeDefault? depth t = some front) :
    ∃ rest, t = front ++ rest := by
  induction t generalizing depth front with
  | nil => exact absurd h (by simp [beforeDefault?])
  | cons c t ih =>
    rw [beforeDefault?] at h
    split at h
    · obtain rfl := Option.some.inj h
      exact ⟨c :: t, rfl⟩
    · obtain ⟨front, inner, rfl⟩ := Option.map_eq_some_iff.mp h
      obtain ⟨rest, rfl⟩ := ih inner
      exact ⟨rest, rfl⟩

theorem stripDefault?_eq (t : Text) : stripDefault? t = some (stripDefault t) := by
  rw [stripDefault?, offsets, defaultOffset?_offsetsFrom, stripDefault]
  cases h : beforeDefault? 0 t with
  | none => rfl
  | some front =>
    obtain ⟨rest, rfl⟩ := exists_of_beforeDefault? h
    simp only [Option.map_some, Nat.zero_add, slice?_zero]

/-! ### Groups of attributes -/

/-- The offset of the bracket that closes the first one that is opened, if there is one, given the
number of open brackets. It fails where that would fall below zero. -/
def closingOffset? : Nat → List (Nat × Char) → Option (Option Nat)
  | _, [] => some none
  | depth, (n, c) :: rest =>
    if c = '[' then closingOffset? (depth + 1) rest
    else if c = ']' then
      (Nat.psub depth 1).bind fun outer => if outer = 0 then some (some n) else
        closingOffset? outer rest
    else closingOffset? depth rest

/-- The group that a text begins with, if there is one, and the text behind it. It fails where the
depth of a bracket would fall below zero, or the text would be cut elsewhere than at boundaries. -/
def splitGroup? (t : Text) : Option (Option (Text × Text)) :=
  if t.head? = some '[' then do
    let some stop ← closingOffset? 0 (offsets t) | return none
    let group ← slice? t 0 (stop + 1)
    let rest ← slice? t (stop + 1) (byteLength t)
    return some (group, rest)
  else return none

theorem length_lt_of_splitGroup? {group rest : Text}
    (h : splitGroup? t = some (some (group, rest))) : rest.length < t.length := by
  rw [splitGroup?] at h
  split at h
  · obtain ⟨stop, -, h⟩ := Option.bind_eq_some_iff.mp h
    cases stop with
    | none => exact absurd (Option.some.inj h) (by simp)
    | some stop =>
      obtain ⟨first, -, h⟩ := Option.bind_eq_some_iff.mp h
      obtain ⟨behind, cut, h⟩ := Option.bind_eq_some_iff.mp h
      obtain ⟨rfl, rfl⟩ := Prod.mk.inj (Option.some.inj (Option.some.inj h))
      exact length_lt_of_slice? cut (Nat.succ_pos stop)
  · exact absurd (Option.some.inj h) (by simp)

theorem length_trimStart_le (t : Text) : (trimStart t).length ≤ t.length :=
  (List.dropWhile_sublist isBlank).length_le

/-- The groups in front of a text that begins with no blank, one after the other, and the text
behind them. -/
def takeGroupsTrimmed? (t : Text) : Option (List Text × Text) :=
  match _h : splitGroup? t with
  | none => none
  | some none => some ([], t)
  | some (some (group, rest)) =>
    (takeGroupsTrimmed? (trimStart rest)).map fun (groups, remains) => (group :: groups, remains)
termination_by t.length
decreasing_by exact Nat.lt_of_le_of_lt (length_trimStart_le rest) (length_lt_of_splitGroup? _h)

def takeGroups? (t : Text) : Option (List Text × Text) := takeGroupsTrimmed? (trimStart t)

theorem takeGroupsTrimmed?_eq (t : Text) : takeGroupsTrimmed? t = (splitGroup? t).bind fun next =>
    next.elim (some ([], t)) fun (group, rest) => (takeGroups? rest).map fun (groups, remains) =>
      (group :: groups, remains) := by
  rw [takeGroupsTrimmed?]
  split <;> simp [*, takeGroups?]

theorem closingOffset?_closed (n : Nat) (rest : List (Nat × Char)) :
    closingOffset? 1 ((n, ']') :: rest) = some (some n) := rfl

theorem closingOffset?_open (hc : ¬(c = ']' ∧ depth = 0)) (n : Nat) (rest : List (Nat × Char)) :
    closingOffset? (depth + 1) ((n, c) :: rest) = closingOffset?
      (squareDepth (depth + 1) c) rest := by
  rw [closingOffset?, squareDepth]
  split
  · rfl
  · split
    · next closing =>
      have inner : depth ≠ 0 := fun zero => hc ⟨closing, zero⟩
      exact if_neg inner
    · rfl

/-- A group that is being read is closed by one bracket of the text, at the depth where it was
opened, or by none. -/
theorem takeGroupsFrom_cases (depth : Nat) (t : Text) :
    (∃ u rest, t = u ++ ']' :: rest ∧
      (∀ n, closingOffset? (depth + 1) (offsetsFrom n t) = some (some (n + byteLength u))) ∧
      ∀ group, takeGroupsFrom (depth + 1) group t = ((group ++ u ++ [']']) :: (takeGroups rest).1,
        (takeGroups rest).2)) ∨
    (∀ n, closingOffset? (depth + 1) (offsetsFrom n t) = some none) ∧
      ∀ group, takeGroupsFrom (depth + 1) group t = ([], group ++ t) := by
  induction t generalizing depth with
  | nil => exact .inr ⟨fun _ => rfl, fun group => by rw [takeGroupsFrom, List.append_nil]⟩
  | cons c t ih =>
    by_cases hc : c = ']' ∧ depth = 0
    · obtain ⟨rfl, rfl⟩ := hc
      refine .inl ⟨[], t, rfl, fun n => closingOffset?_closed n _, fun group => ?_⟩
      rw [takeGroupsFrom_closed, List.append_nil, takeGroups]
    · obtain ⟨deeper, hd⟩ := exists_squareDepth_eq_succ hc
      rcases ih deeper with ⟨u, rest, rfl, stop, groups⟩ | ⟨stop, groups⟩
      · refine .inl ⟨c :: u, rest, rfl, fun n => ?_, fun group => ?_⟩
        · rw [offsetsFrom, closingOffset?_open hc, hd, stop, byteLength, Nat.add_assoc]
        · rw [takeGroupsFrom_open hc, hd, groups]
          simp
      · refine .inr ⟨fun n => ?_, fun group => ?_⟩
        · rw [offsetsFrom, closingOffset?_open hc, hd, stop]
        · rw [takeGroupsFrom_open hc, hd, groups, List.append_assoc, List.singleton_append]

theorem takeGroups_trimStart (t : Text) : takeGroups (trimStart t) = takeGroups t := by
  obtain ⟨b, split, front⟩ := exists_trimStart t
  rw [← takeGroups_blank_append front, ← split]

/-- A text that begins with no blank begins with the first of its groups, or has none. -/
theorem splitGroup?_cases (h : trimStart t = t) :
    (∃ group rest, splitGroup? t = some (some (group, rest)) ∧
      takeGroups t = (group :: (takeGroups rest).1, (takeGroups rest).2)) ∨
      splitGroup? t = some none ∧ takeGroups t = ([], t) := by
  by_cases begins : t.head? = some '['
  · obtain ⟨s, rfl⟩ := List.head?_eq_some_iff.mp begins
    have read : takeGroups ('[' :: s) = takeGroupsFrom 1 ['['] s := rfl
    have scan : closingOffset? 0 (offsets ('[' :: s)) = closingOffset? 1 (offsetsFrom 1 s) := rfl
    rw [splitGroup?, if_pos begins, read, scan]
    rcases takeGroupsFrom_cases 0 s with ⟨u, rest, rfl, stop, groups⟩ | ⟨stop, groups⟩
    · have split : '[' :: (u ++ ']' :: rest) = ('[' :: u ++ [']']) ++ rest := by simp
      have length : 1 + byteLength u + 1 = byteLength ('[' :: u ++ [']']) := by
        rw [byteLength_append]
        rfl
      refine .inl ⟨'[' :: u ++ [']'], rest, ?_, groups ['[']⟩
      rw [stop, Option.bind_eq_bind, Option.bind_some]
      simp only [length, split, slice?_zero, slice?_end, Option.bind_eq_bind, Option.bind_some]
      rfl
    · refine .inr ⟨?_, groups ['[']⟩
      rw [stop]
      rfl
  · refine .inr ⟨if_neg begins, ?_⟩
    rw [takeGroups_eq_trimStart (h.symm ▸ begins), h]

/-- The groups in front of a text are cut off without failing. -/
theorem takeGroups?_eq (t : Text) : takeGroups? t = some (takeGroups t) := by
  induction hn : t.length using Nat.strongRecOn generalizing t with
  | ind n ih =>
    subst hn
    rw [takeGroups?, takeGroupsTrimmed?_eq, ← takeGroups_trimStart t]
    rcases splitGroup?_cases (t := trimStart t) (List.dropWhile_idempotent isBlank t)
      with ⟨group, rest, split, groups⟩ | ⟨split, groups⟩
    · have shorter := Nat.lt_of_lt_of_le (length_lt_of_splitGroup? split) (length_trimStart_le t)
      have further := ih rest.length shorter rest rfl
      rw [split, groups, Option.bind_some, Option.elim_some]
      dsimp only
      rw [further, Option.map_some]
    · rw [split, groups]
      rfl

/-! ### The word in front of a place -/

/-- The offset behind the last character of a text that is no part of a word. -/
def wordStart (t : Text) : Nat :=
  ((offsets t).reverse.find? fun p => !isNameCharacter p.2).elim 0 fun p => p.1 + p.2.utf8Size

/-- Whether a dot or one of the creation words stands in front of an offset, blanks aside. It fails
where the text would be cut elsewhere than at boundaries. -/
def isCreationAt? (t : Text) (offset : Nat) : Option Bool := do
  let before := trimEnd (← slice? t 0 offset)
  if before.getLast? = some '.' then return true
  let word ← slice? before (wordStart before) (byteLength before)
  return creationWords.contains word

theorem wordStart_append {front word : Text} (hw : ∀ c ∈ word, isNameCharacter c = true)
    (hf : ∀ c ∈ front.getLast?, isNameCharacter c = false) :
    wordStart (front ++ word) = byteLength front := by
  have behind :
      ((offsetsFrom (0 + byteLength front) word).reverse.find? fun p =>
        !isNameCharacter p.2) = none :=
    List.find?_eq_none.mpr fun p hp => by
      simp [hw p.2 (mem_of_mem_offsetsFrom (List.mem_reverse.mp hp))]
  rw [wordStart, offsets, offsetsFrom_append, List.reverse_append, List.find?_append, behind,
    Option.none_or]
  rcases List.eq_nil_or_concat' front with rfl | ⟨start, c, rfl⟩
  · rfl
  · have last := hf c (by simp)
    rw [offsetsFrom_append, List.reverse_append, byteLength_append]
    simp [offsetsFrom, last, byteLength]

/-- A text is the word at its end and what stands in front of it. -/
theorem exists_wordBefore (t : Text) : ∃ front, t = front ++ wordBefore t.reverse ∧
    (∀ c ∈ wordBefore t.reverse, isNameCharacter c = true) ∧
      ∀ c ∈ front.getLast?, isNameCharacter c = false := by
  refine ⟨(t.reverse.dropWhile isNameCharacter).reverse, ?_, fun c hc => ?_, fun c hc => ?_⟩
  · have split :=
      congrArg List.reverse
        (List.takeWhile_append_dropWhile (p := isNameCharacter) (l := t.reverse))
    rw [List.reverse_append, List.reverse_reverse] at split
    exact split.symm
  · exact List.mem_takeWhile_imp (List.mem_reverse.mp hc)
  · rw [List.getLast?_reverse] at hc
    have stop := List.head?_dropWhile_not isNameCharacter t.reverse
    rwa [hc] at stop

/-- Whether a header reads like a creation is told from the text in front of its place, without
failing. -/
theorem isCreationAt?_eq {header : MemberHeader} (h : header.place.IsIn t) :
    isCreationAt? t header.start = some (isCreationLike header) := by
  obtain ⟨split, offset⟩ := h
  have before :
      header.place.before.dropWhile isBlank = (trimEnd header.place.before.reverse).reverse := by
    rw [reverse_trimEnd, List.reverse_reverse]
  rw [isCreationAt?, MemberHeader.start, offset, ← split, slice?_zero, Option.bind_eq_bind,
    Option.bind_some, isCreationLike, before]
  generalize trimEnd header.place.before.reverse = back
  obtain ⟨front, word, inside, stop⟩ := exists_wordBefore back
  have start := wordStart_append inside stop
  have cut := slice?_end front (wordBefore back.reverse)
  rw [← word] at start cut
  dsimp only
  rw [start, cut, List.head?_reverse]
  by_cases dot : back.getLast? = some '.' <;> simp [dot]

end Source

end SourceSurvey
