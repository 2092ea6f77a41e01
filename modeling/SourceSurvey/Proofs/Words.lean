import SourceSurvey.Source.Split
import SourceSurvey.Text.Word
import Mathlib.Data.List.Basic

/-! Words between blanks. Blanks end a word and begin none, so the words of a text are those before
a gap and those behind it, blanks at the two ends do not matter, and a text has no words exactly
when it is all blank. A collapsed text has the words of the text it was made from. -/

namespace SourceSurvey.Text

/-- What holds of the characters of a text is decided along the text, not along all characters. -/
instance (priority := 2000) (t : Text) (p : Char → Prop) [DecidablePred p] :
    Decidable (∀ c ∈ t, p c) :=
  List.decidableBAll p t

instance (priority := 2000) (o : Option Char) (p : Char → Prop) [DecidablePred p] :
    Decidable (∀ c ∈ o, p c) :=
  match o with
  | none => isTrue fun _ h => absurd h (by simp)
  | some d => decidable_of_iff (p d) ⟨fun h _ hc => Option.mem_some_iff.mp hc ▸ h, fun h => h d rfl⟩

/-- A text of blanks. -/
def Blank (t : Text) : Prop := ∀ c ∈ t, isBlank c = true

/-- A text without blanks. -/
def Solid (t : Text) : Prop := ∀ c ∈ t, isBlank c = false

instance (t : Text) : Decidable (Blank t) := inferInstanceAs (Decidable (∀ c ∈ t, isBlank c = true))

instance (t : Text) : Decidable (Solid t) :=
  inferInstanceAs (Decidable (∀ c ∈ t, isBlank c = false))

variable {a b t w : Text} {c : Char}

theorem Blank.append (ha : Blank a) (hb : Blank b) : Blank (a ++ b) :=
  fun c hc => (List.mem_append.mp hc).elim (ha c) (hb c)

theorem Blank.left (h : Blank (a ++ b)) : Blank a := fun c hc => h c (List.mem_append_left b hc)

theorem Blank.right (h : Blank (a ++ b)) : Blank b := fun c hc => h c (List.mem_append_right a hc)

theorem Blank.reverse (h : Blank t) : Blank t.reverse := fun c hc => h c (List.mem_reverse.mp hc)

theorem dropWhile_blank_append (ha : Blank a) (t : Text) :
    (a ++ t).dropWhile isBlank = t.dropWhile isBlank := by
  rw [List.dropWhile_append_of_pos ha]

/-- A text that is not all blank has a first character behind its blanks. -/
theorem exists_eq_blank_append (h : ¬Blank t) :
    ∃ b c rest, t = b ++ c :: rest ∧ Blank b ∧ isBlank c = false := by
  induction t with
  | nil => exact absurd (fun c hc => absurd hc List.not_mem_nil) h
  | cons d t ih =>
    by_cases hd : isBlank d = true
    · obtain ⟨b, c, rest, rfl, hb, hc⟩ :=
        ih fun ht => h fun c hc => (List.mem_cons.mp hc).elim (· ▸ hd) (ht c)
      exact ⟨d :: b, c, rest, rfl, fun e he => (List.mem_cons.mp he).elim (· ▸ hd) (hb e), hc⟩
    · exact ⟨[], d, t, rfl, fun c hc => absurd hc List.not_mem_nil, Bool.not_eq_true _ ▸ hd⟩

/-- The first character behind the blanks of a text is one character. -/
theorem blank_append_cons_inj {d : Char} {x y : Text} (ha : Blank a) (hb : Blank b)
    (hc : isBlank c = false)
    (hd : isBlank d = false) (h : a ++ c :: x = b ++ d :: y) : c = d ∧ x = y := by
  have drop {b : Text} {d : Char} {y : Text} (hb : Blank b) (hd : isBlank d = false) :
      (b ++ d :: y).dropWhile isBlank = d :: y := by
    rw [dropWhile_blank_append hb, List.dropWhile_cons_of_neg (by simp [hd])]
  have same := congrArg (List.dropWhile isBlank) h
  rw [drop ha hc, drop hb hd] at same
  exact List.cons.inj same

/-- The numbers of the blanks. -/
def blankPoints : List Nat :=
  [9, 10, 11, 12, 13, 0x20, 0x85, 0xA0, 0x1680, 0x2000, 0x2001, 0x2002, 0x2003, 0x2004, 0x2005,
    0x2006, 0x2007, 0x2008, 0x2009, 0x200A, 0x2028, 0x2029, 0x202F, 0x205F, 0x3000]

/-- What holds of no blank is told by its numbers. -/
theorem isBlank_of_points {p : Char → Bool} (hp : ∀ n ∈ blankPoints, p (Char.ofNat n) = false)
    (h : p c = true) :
    isBlank c = false := by
  by_contra hb
  have points : c.toNat ∈ blankPoints := by
    simp only [isBlank, Bool.not_eq_false, Bool.or_eq_true, Bool.and_eq_true, decide_eq_true_eq]
      at hb
    simp only [blankPoints, List.mem_cons, List.not_mem_nil]
    omega
  have none := hp c.toNat points
  rw [Char.ofNat_toNat, h] at none
  exact absurd none (by simp)

/-- A character of a word is no blank. -/
theorem isBlank_of_isWord (h : isWord c = true) : isBlank c = false :=
  isBlank_of_points (by decide +kernel) h

theorem isWord_of_isNameStart (h : isNameStart c = true) : isWord c = true := by
  simp only [isNameStart, Bool.or_eq_true, decide_eq_true_eq] at h
  have low : c.toNat < 0x80 := by
    rcases h with h | rfl
    · have bound : c.val ≤ 'z'.val := by
        rcases (Bool.or_eq_true ..).mp h with h | h
        · have upper : c.val ≤ 'Z'.val := (of_decide_eq_true h).2
          exact UInt32.le_trans upper (by decide)
        · exact of_decide_eq_true ((Bool.and_eq_true ..).mp h).2
      exact Nat.lt_of_le_of_lt (UInt32.le_iff_toNat_le.mp bound) (by decide)
    · decide
  rw [isWord, if_pos low]
  rcases h with h | rfl
  · simp [Char.isAlphanum, h]
  · decide

theorem isBlank_of_isNameStart (h : isNameStart c = true) : isBlank c = false :=
  isBlank_of_isWord (isWord_of_isNameStart h)

/-! ### Words on two sides of a gap -/

@[simp] theorem wordsFrom_nil_nil : wordsFrom [] [] = [] := rfl

@[simp] theorem wordsFrom_cons_nil (c : Char) (word : Text) :
    wordsFrom (c :: word) [] = [c :: word] := rfl

theorem wordsFrom_cons (hc : isBlank c = false) (word rest : Text) :
    wordsFrom word (c :: rest) = wordsFrom (word ++ [c]) rest := by
  cases word <;> exact if_neg (Bool.eq_false_iff.mp hc)

/-- A blank ends the word that stands in front of it. -/
theorem wordsFrom_blank (hc : isBlank c = true) (word rest : Text) :
    wordsFrom word (c :: rest) = wordsFrom word [] ++ words rest := by
  cases word <;> exact if_pos hc

theorem wordsFrom_append_blank (hc : isBlank c = true) (word a rest : Text) :
    wordsFrom word (a ++ c :: rest) = wordsFrom word a ++ words rest := by
  induction a generalizing word with
  | nil => exact wordsFrom_blank hc word rest
  | cons d a ih =>
    rw [List.cons_append]
    by_cases hd : isBlank d = true
    · rw [wordsFrom_blank hd, wordsFrom_blank hd, words, ih, List.append_assoc]
      rfl
    · rw [Bool.not_eq_true] at hd
      rw [wordsFrom_cons hd, wordsFrom_cons hd, ih]

theorem words_nil : words [] = [] := rfl

/-- Blanks begin no word. -/
theorem words_blank_append (hb : Blank b) (t : Text) : words (b ++ t) = words t := by
  induction b with
  | nil => rfl
  | cons c b ih =>
    rw [List.cons_append, ← ih fun d hd => hb d (List.mem_cons_of_mem c hd)]
    exact wordsFrom_append_blank (hb c List.mem_cons_self) [] [] _

/-- The words of a text are those before a gap and those behind it. -/
theorem words_append_gap (hb : Blank b) (hn : b ≠ []) (a t : Text) :
    words (a ++ (b ++ t)) = words a ++ words t := by
  obtain ⟨c, b, rfl⟩ := List.exists_cons_of_ne_nil hn
  rw [← words_blank_append (fun d hd => hb d (List.mem_cons_of_mem c hd)) t]
  exact wordsFrom_append_blank (hb c List.mem_cons_self) [] a _

theorem words_append_blank (hb : Blank b) (a : Text) : words (a ++ b) = words a := by
  by_cases hn : b = []
  · rw [hn, List.append_nil]
  · have h := words_append_gap hb hn a []
    rwa [words_nil, List.append_nil, List.append_nil] at h

theorem wordsFrom_solid (hw : Solid w) (hn : a ++ w ≠ []) : wordsFrom a w = [a ++ w] := by
  induction w generalizing a with
  | nil =>
    rw [List.append_nil] at hn ⊢
    cases a with
    | nil => exact absurd rfl hn
    | cons => rfl
  | cons c w ih =>
    have hc := hw c List.mem_cons_self
    have hs : Solid w := fun d hd => hw d (List.mem_cons_of_mem c hd)
    rw [wordsFrom_cons hc, ih hs (by simp), List.append_assoc, List.singleton_append]

/-- A text without blanks is one word. -/
theorem words_solid (hw : Solid w) (hn : w ≠ []) : words w = [w] := wordsFrom_solid hw hn

theorem mem_wordsFrom {word : Text} (ha : Solid a) (h : word ∈ wordsFrom a t) :
    Solid word ∧ word ≠ [] := by
  induction t generalizing a with
  | nil =>
    cases a with
    | nil => exact absurd h List.not_mem_nil
    | cons d a =>
      rw [wordsFrom_cons_nil, List.mem_singleton] at h
      exact h ▸ ⟨ha, by simp⟩
  | cons c t ih =>
    have here : Solid [] := fun d hd => absurd hd List.not_mem_nil
    by_cases hc : isBlank c = true
    · rw [wordsFrom_blank hc, List.mem_append] at h
      rcases h with h | h
      · cases a with
        | nil => exact absurd h List.not_mem_nil
        | cons d a =>
          rw [wordsFrom_cons_nil, List.mem_singleton] at h
          exact h ▸ ⟨ha, by simp⟩
      · exact ih here h
    · rw [Bool.not_eq_true] at hc
      rw [wordsFrom_cons hc] at h
      refine ih (fun d hd => ?_) h
      rcases List.mem_append.mp hd with hd | hd
      · exact ha d hd
      · rw [List.mem_singleton.mp hd]
        exact hc

theorem solid_of_mem_words {word : Text} (h : word ∈ words t) : Solid word ∧ word ≠ [] :=
  mem_wordsFrom (fun _ hd => absurd hd List.not_mem_nil) h

theorem wordsFrom_ne_nil {d : Char} (a t : Text) : wordsFrom (d :: a) t ≠ [] := by
  induction t generalizing a d with
  | nil => simp
  | cons c t ih =>
    by_cases hc : isBlank c = true
    · simp [wordsFrom_blank hc]
    · rw [Bool.not_eq_true] at hc
      rw [wordsFrom_cons hc]
      exact ih (a ++ [c])

theorem words_eq_nil_iff : words t = [] ↔ Blank t := by
  constructor
  · intro h c hc
    by_contra hb
    induction t with
    | nil => simp at hc
    | cons d t ih =>
      by_cases hd : isBlank d = true
      · have hd' : Blank [d] := by simpa [Blank] using hd
        have hw : words (d :: t) = words t := words_blank_append hd' t
        rcases List.mem_cons.mp hc with rfl | hc
        · exact hb hd
        · exact ih (hw ▸ h) hc
      · rw [Bool.not_eq_true] at hd
        rw [words, wordsFrom_cons hd] at h
        exact wordsFrom_ne_nil _ _ h
  · intro h
    have := words_blank_append h []
    rwa [List.append_nil] at this

theorem flatten_wordsFrom (word t : Text) :
    (wordsFrom word t).flatten = word ++ t.filter fun c => !isBlank c := by
  induction t generalizing word with
  | nil => cases word <;> simp
  | cons c t ih =>
    by_cases hc : isBlank c = true
    · cases word <;> simp [wordsFrom_blank hc, words, hc, ih]
    · rw [Bool.not_eq_true] at hc
      simp [wordsFrom_cons hc, ih, hc]

/-- The words of a text are all of it but the blanks. -/
theorem flatten_words (t : Text) : (words t).flatten = t.filter fun c => !isBlank c :=
  flatten_wordsFrom [] t

/-- A text has other words than what it begins with, if it goes on. -/
theorem words_append_ne (hb : ¬Blank b) (a : Text) : words (a ++ b) ≠ words a := by
  intro h
  have same := congrArg List.flatten h
  rw [flatten_words, flatten_words, List.filter_append] at same
  refine hb fun c hc => ?_
  have := List.filter_eq_nil_iff.mp (List.append_right_eq_self.mp same) c hc
  simpa using this

/-! ### Runs of words -/

/-- Words with the blanks behind each one. -/
def spaced (run : List (Text × Text)) : Text := run.flatMap fun (word, gap) => word ++ gap

theorem spaced_cons (word gap : Text) (run : List (Text × Text)) :
    spaced ((word, gap) :: run) = word ++ (gap ++ spaced run) := by
  simp [spaced, List.flatMap_cons]

/-- Every word of a run is one word, and there are blanks behind it. -/
def IsRun (run : List (Text × Text)) : Prop :=
  ∀ p ∈ run, (Solid p.1 ∧ p.1 ≠ []) ∧ Blank p.2 ∧ p.2 ≠ []

theorem IsRun.tail {p : Text × Text} {run : List (Text × Text)}
    (h : IsRun (p :: run)) : IsRun run :=
  fun q hq => h q (List.mem_cons_of_mem p hq)

theorem words_spaced_append {run : List (Text × Text)} (h : IsRun run) (t : Text) :
    words (spaced run ++ t) = run.map (·.1) ++ words t := by
  induction run with
  | nil => rfl
  | cons p run ih =>
    obtain ⟨word, gap⟩ := p
    obtain ⟨⟨hs, hn⟩, hb, hg⟩ := h _ List.mem_cons_self
    rw [spaced_cons, List.append_assoc, List.append_assoc, words_append_gap hb hg,
      words_solid hs hn, ih h.tail]
    rfl

theorem words_spaced {run : List (Text × Text)} (h : IsRun run) :
    words (spaced run) = run.map (·.1) := by
  have := words_spaced_append h []
  rwa [List.append_nil, words_nil, List.append_nil] at this

/-! ### Trimming and collapsing -/

/-- A text is blanks and what trimming its start keeps. -/
theorem exists_trimStart (t : Text) : ∃ b, t = b ++ trimStart t ∧ Blank b :=
  ⟨t.takeWhile isBlank, List.takeWhile_append_dropWhile.symm,
    List.all_eq_true.mp List.all_takeWhile⟩

theorem words_trimStart (t : Text) : words (trimStart t) = words t := by
  obtain ⟨b, split, hb⟩ := exists_trimStart t
  rw [← words_blank_append hb (trimStart t), ← split]

/-- A text is what trimming its end keeps and blanks behind it. -/
theorem exists_trimEnd (t : Text) :
    ∃ b, t = trimEnd t ++ b ∧ Blank b ∧ ∀ c ∈ (trimEnd t).getLast?, isBlank c = false := by
  induction t with
  | nil => exact ⟨[], rfl, fun c hc => absurd hc List.not_mem_nil, by simp [trimEnd]⟩
  | cons c t ih =>
    obtain ⟨b, ht, hb, hl⟩ := ih
    cases hk : trimEnd t with
    | nil =>
      rw [hk, List.nil_append] at ht
      simp only [trimEnd, hk]
      by_cases hc : isBlank c = true
      · refine ⟨c :: b, by simp [hc, ← ht], ?_, by simp [hc]⟩
        intro d hd
        rcases List.mem_cons.mp hd with rfl | hd
        · exact hc
        · exact hb d hd
      · exact ⟨b, by simp [hc, ← ht], hb, by simp [hc]⟩
    | cons d kept =>
      rw [hk] at ht hl
      simp only [trimEnd, hk]
      exact ⟨b, by rw [ht]; rfl, hb, by simpa using hl⟩

theorem words_trimEnd (t : Text) : words (trimEnd t) = words t := by
  obtain ⟨b, ht, hb, -⟩ := exists_trimEnd t
  conv_rhs => rw [ht, words_append_blank hb]

theorem trimEnd_blank (hb : Blank b) : trimEnd b = [] := by
  induction b with
  | nil => rfl
  | cons c b ih =>
    have hc := hb c List.mem_cons_self
    simp [trimEnd, ih fun d hd => hb d (List.mem_cons_of_mem c hd), hc]

theorem trimEnd_append_blank (hb : Blank b) (t : Text) : trimEnd (t ++ b) = trimEnd t := by
  induction t with
  | nil => rw [List.nil_append, trimEnd_blank hb, trimEnd]
  | cons c t ih => rw [List.cons_append, trimEnd, ih, trimEnd]

theorem trim_blank_append (hb : Blank b) (t : Text) : trim (b ++ t) = trim t := by
  rw [trim, trimStart, dropWhile_blank_append hb, trim, trimStart]

theorem trim_append_blank (hb : Blank b) (t : Text) : trim (t ++ b) = trim t := by
  rw [trim, trimStart, List.dropWhile_append, trim, trimStart]
  split
  · rename_i h
    have hd : t.dropWhile isBlank = [] := List.isEmpty_iff.mp h
    have hbd : b.dropWhile isBlank = [] := by
      rw [← List.append_nil b, dropWhile_blank_append hb, List.dropWhile_nil]
    rw [hd, hbd]
  · exact trimEnd_append_blank hb _

/-- A text is a trimmed text with blanks around it. -/
theorem exists_trim (t : Text) :
    ∃ a b, t = a ++ (trim t ++ b) ∧ Blank a ∧ Blank b ∧ (∀ c ∈ (trim t).head?, isBlank c = false) ∧
      ∀ c ∈ (trim t).getLast?, isBlank c = false := by
  obtain ⟨b, ht, hb, hl⟩ := exists_trimEnd (trimStart t)
  obtain ⟨a, split, ha⟩ := exists_trimStart t
  have hs : t = a ++ (trim t ++ b) := by rw [trim, ← ht, ← split]
  refine ⟨_, b, hs, ha, hb, fun c hc => ?_, hl⟩
  obtain ⟨rest, hr⟩ := List.head?_eq_some_iff.mp hc
  rw [trim] at hr
  rw [hr, trimStart] at ht
  have := List.head?_dropWhile_not isBlank t
  rw [ht] at this
  simpa using this

theorem trim_trim (t : Text) : trim (trim t) = trim t := by
  obtain ⟨a, b, split, ha, hb, -, -⟩ := exists_trim t
  conv_rhs => rw [split, trim_blank_append ha, trim_append_blank hb]

theorem words_trim (t : Text) : words (trim t) = words t := by
    rw [trim, words_trimEnd, words_trimStart]

theorem collapse_trim (t : Text) : collapse (trim t) = collapse t := by
    rw [collapse, words_trim, collapse]

theorem collapse_blank_append (hb : Blank b) (t : Text) : collapse (b ++ t) = collapse t := by
  rw [collapse, words_blank_append hb, collapse]

theorem collapse_append_blank (hb : Blank b) (t : Text) : collapse (t ++ b) = collapse t := by
  rw [collapse, words_append_blank hb, collapse]

theorem words_intercalate {ws : List Text} (h : ∀ w ∈ ws, Solid w ∧ w ≠ []) :
    words ([' '].intercalate ws) = ws := by
  have hb : Blank [' '] := by decide
  induction ws with
  | nil => rfl
  | cons w ws ih =>
    obtain ⟨hs, hn⟩ := h w List.mem_cons_self
    have ih := ih fun v hv => h v (List.mem_cons_of_mem w hv)
    cases ws with
    | nil => rw [List.intercalate_singleton, words_solid hs hn]
    | cons v ws =>
      rw [List.intercalate_cons_cons, List.append_assoc, words_append_gap hb (by simp), ih,
        words_solid hs hn]
      rfl

/-- Collapsing keeps the words. -/
theorem words_collapse (t : Text) : words (collapse t) = words t :=
  words_intercalate fun _ hw => solid_of_mem_words hw

theorem collapse_eq_iff {s t : Text} : collapse s = collapse t ↔ words s = words t := by
  constructor
  · intro h
    rw [← words_collapse s, h, words_collapse]
  · intro h
    rw [collapse, h, collapse]

end SourceSurvey.Text
