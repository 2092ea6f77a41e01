import SourceSurvey.Proofs.Creation
import SourceSurvey.Proofs.LeadHeader

/-! The front of a line. Whether a place is in an attribute is told by the square brackets that are
open on its line and by the character in front of it, and whether it is behind a creation by the
last word in front of it. So a text behind whose end neither holds may stand in front of any text
without changing what holds of the places of the latter. -/

namespace SourceSurvey.Source

open Text

variable {t u : Text}

/-! ### Attributes -/

/-- The square brackets that are open at the end of a text, on its last line. -/
def lineDepth (t : Text) : Nat :=
  t.foldl (fun depth c => if c = '\n' then 0 else squareDepth depth c) 0

theorem foldl_takeWhile_reverse (t : Text) :
    (t.reverse.takeWhile (· ≠ '\n')).reverse.foldl squareDepth 0 = lineDepth t := by
  induction t using List.reverseRecOn with
  | nil => rfl
  | append_singleton t c ih =>
    rw [List.reverse_append, List.reverse_singleton, List.singleton_append, lineDepth,
      List.foldl_append, ← lineDepth]
    by_cases hc : c = '\n'
    · simp [hc]
    · rw [List.takeWhile_cons_of_pos (by simpa using hc), List.reverse_cons, List.foldl_append, ih]
      simp [hc]

/-- A place is in an attribute behind an at sign or where a square bracket is open. -/
theorem endsInAttribute_reverse (t : Text) :
    endsInAttribute t.reverse = (decide (t.getLast? = some '@') || decide (0 < lineDepth t)) := by
  have head : (t.reverse.takeWhile (· ≠ '\n')).head? = some '@' ↔ t.getLast? = some '@' := by
    rw [← List.head?_reverse]
    cases t.reverse with
    | nil => rfl
    | cons c u =>
      by_cases hc : c = '\n'
      · simp [hc]
      · simp [List.takeWhile_cons_of_pos, hc]
  rw [endsInAttribute, foldl_takeWhile_reverse, decide_eq_decide.mpr head]

theorem foldl_squareDepth (h : ∀ c ∈ t, c ∉ ['[', ']']) (depth : Nat) :
    t.foldl squareDepth depth = depth := by
  induction t with
  | nil => rfl
  | cons c t ih =>
    have hc := h c List.mem_cons_self
    simp only [List.mem_cons, List.not_mem_nil, or_false, not_or] at hc
    rw [List.foldl_cons, squareDepth, if_neg hc.1, if_neg hc.2, ih fun d hd =>
      h d (List.mem_cons_of_mem c hd)]

theorem notMem_squares_of_isWord {c : Char} (h : isWord c = true) : c ∉ ['[', ']'] := fun hm => by
  have signs : ∀ d ∈ ['[', ']'], isWord d = false := by decide
  exact absurd h (by simp [signs c hm])

theorem foldl_squareDepth_blank (hb : Blank t)
    (depth : Nat) : t.foldl squareDepth depth = depth := by
  have solid : ∀ c ∈ ['[', ']'], isBlank c = false := by decide
  exact foldl_squareDepth (fun c hc hm => absurd (hb c hc) (by simp [solid c hm])) depth

theorem squareDepth_mono {m n : Nat} (h : m ≤ n)
    (c : Char) : squareDepth m c ≤ squareDepth n c := by
  rw [squareDepth, squareDepth]
  split
  · omega
  · split <;> omega

theorem lineDepth_append_le (t u : Text) : lineDepth (t ++ u) ≤ u.foldl squareDepth
    (lineDepth t) := by
  have step : ∀ {m n : Nat}, m ≤ n →
      u.foldl (fun depth c => if c = '\n' then 0 else squareDepth depth c) m ≤ u.foldl
        squareDepth n := by
    induction u with
    | nil => exact fun h => h
    | cons c u ih =>
      intro m n h
      rw [List.foldl_cons, List.foldl_cons]
      refine ih ?_
      split
      · exact Nat.zero_le _
      · exact squareDepth_mono h c
  rw [lineDepth, List.foldl_append]
  exact step (Nat.le_refl _)

/-! ### Creations -/

/-- Whether what stands in front of a place reads like a creation. -/
def createsBehind (before : Text) : Bool :=
  (before.dropWhile isBlank).head? = some '.' || creationWords.contains
    (wordBefore (before.dropWhile isBlank))

theorem createsBehind_blank_append {b : Text} (hb : Blank b) (t : Text) :
    createsBehind (b ++ t) = createsBehind t := by
  rw [createsBehind, createsBehind, dropWhile_blank_append hb]

/-- Behind a sign other than a dot nothing is created. -/
theorem createsBehind_sign {c : Char} (hc : isNameCharacter c = false) (hb : isBlank c = false)
    (hd : c ≠ '.') (t : Text) :
    createsBehind (c :: t) = false := by
  have none : (c :: t).takeWhile isNameCharacter = [] := List.takeWhile_cons_of_neg (by simp [hc])
  have word : wordBefore (c :: t) = [] := congrArg List.reverse none
  rw [createsBehind, List.dropWhile_cons_of_neg (by simp [hb]), word]
  simp [hd, creationWords]

/-! ### Texts that may stand in front -/

/-- A text whose last character is a blank. -/
def EndsBlank (t : Text) : Prop := ∃ c, t.getLast? = some c ∧ isBlank c = true

theorem EndsBlank.append (h : EndsBlank u) (t : Text) : EndsBlank (t ++ u) := by
  obtain ⟨c, hc, hb⟩ := h
  exact ⟨c, by rw [List.getLast?_append, hc]; rfl, hb⟩

theorem endsBlank_of_blank (hb : Blank t) (hn : t ≠ []) : EndsBlank t :=
  ⟨t.getLast hn, List.getLast?_eq_some_getLast hn, hb _ (List.getLast_mem hn)⟩

theorem EndsBlank.noWord (h : EndsBlank t) : ∀ c ∈ t.getLast?, isWord c = false := by
  obtain ⟨d, hd, hb⟩ := h
  rw [hd]
  exact fun c hc => Option.mem_some_iff.mp hc ▸ isWord_of_isBlank hb

/-- A text behind whose end a place is in no attribute. -/
structure Quiet (t : Text) : Prop where
  squares : lineDepth t = 0
  mark : t.getLast? ≠ some '@'

theorem Quiet.of_blank (hs : lineDepth t = 0) (hb : EndsBlank t) : Quiet t where
  squares := hs
  mark hm := by
    obtain ⟨c, hc, hb⟩ := hb
    rw [hm] at hc
    exact absurd (Option.some.inj hc ▸ hb) (by decide)

theorem Quiet.endsInAttribute_eq (h : Quiet t) (before : Text) :
    endsInAttribute (before ++ t.reverse) = endsInAttribute before := by
  have joined := endsInAttribute_reverse (t ++ before.reverse)
  have alone := endsInAttribute_reverse before.reverse
  have depth : lineDepth (t ++ before.reverse) = lineDepth before.reverse := by
    rw [lineDepth, List.foldl_append, ← lineDepth, h.squares, lineDepth]
  have last : (t ++ before.reverse).getLast? = some '@' ↔ before.reverse.getLast? = some '@' := by
    rw [List.getLast?_append]
    cases before.reverse.getLast? with
    | none => simp [h.mark]
    | some c => simp
  rw [List.reverse_append, List.reverse_reverse, depth, decide_eq_decide.mpr last] at joined
  rw [List.reverse_reverse] at alone
  rw [joined, alone]

/-- A text behind whose end a place is in no attribute and behind no creation. -/
structure Fresh (t : Text) : Prop where
  squares : lineDepth t = 0
  blank : EndsBlank t
  creation : createsBehind t.reverse = false

theorem Fresh.quiet (h : Fresh t) : Quiet t := .of_blank h.squares h.blank

theorem isNameCharacter_of_isBlank {c : Char}
    (h : isBlank c = true) : isNameCharacter c = false := by
  cases hc : isNameCharacter c with
  | false => rfl
  | true => rw [isBlank_of_points (by decide +kernel) hc] at h; exact h.symm

theorem Fresh.createsBehind_eq (h : Fresh t) (before : Text) :
    createsBehind (before ++ t.reverse) = createsBehind before := by
  by_cases hb : Blank before
  · have alone : before.dropWhile isBlank = [] := List.dropWhile_eq_nil_iff.mpr hb
    rw [createsBehind_blank_append hb, h.creation, createsBehind, alone]
    decide
  · obtain ⟨b, c, rest, rfl, hb, hc⟩ := exists_eq_blank_append hb
    obtain ⟨d, hd, hblank⟩ := h.blank
    obtain ⟨u, hu⟩ := List.getLast?_eq_some_iff.mp hd
    have front : ∀ v : Text,
        ((b ++ c :: rest) ++ v).dropWhile isBlank = c :: rest ++ v := fun v => by
      rw [List.append_assoc, dropWhile_blank_append hb, List.cons_append,
        List.dropWhile_cons_of_neg (by simp [hc])]
    have alone := front []
    rw [List.append_nil, List.append_nil] at alone
    have word : wordBefore (c :: rest ++ t.reverse) = wordBefore (c :: rest) := by
      rw [hu, List.reverse_concat, wordBefore, wordBefore]
      congr 1
      exact takeWhile_append_cons_of_neg (isNameCharacter_of_isBlank hblank) _ _
    rw [createsBehind, createsBehind, front, alone, word]
    rfl

end SourceSurvey.Source
