import SourceSurvey.Proofs.Words

/-! Clauses of several entries. An entry keeps its commas inside angle brackets and closes every
bracket that it opens, so entries that are written between commas are read back one by one, whatever
blanks stand around them. -/

namespace SourceSurvey.Source

open Text

/-- Whether the commas of a text stand inside angle brackets and every bracket is closed at its end,
given the depth in front of it. -/
def isEntryFrom : Nat → Text → Bool
  | depth, [] => depth = 0
  | depth, c :: rest => (c ≠ ',' || 0 < depth) && isEntryFrom (angleDepth depth c) rest

/-- Whether a text keeps its commas inside angle brackets and closes every bracket that it opens. -/
def isEntry (t : Text) : Bool := isEntryFrom 0 t

variable {depth : Nat} {t b : Text}

theorem piecesFrom_cons {c : Char} (h : ¬(c = ',' ∧ depth = 0)) (rest : Text) :
    piecesFrom depth (c :: rest) = (piecesFrom (angleDepth depth c) rest).modifyHead (c :: ·) := by
  rw [piecesFrom, if_neg h]

theorem isEntryFrom_cons {c : Char} :
    isEntryFrom depth (c :: t) = true ↔ ¬(c = ',' ∧ depth = 0) ∧
      isEntryFrom (angleDepth depth c) t = true := by
  rw [isEntryFrom, Bool.and_eq_true, Bool.or_eq_true, decide_eq_true_eq,
    decide_eq_true_eq, not_and_or, Nat.pos_iff_ne_zero]

theorem piecesFrom_of_isEntryFrom (h : isEntryFrom depth t = true) : piecesFrom depth t = [t] := by
  induction t generalizing depth with
  | nil => rfl
  | cons c t ih =>
    obtain ⟨hc, ht⟩ := isEntryFrom_cons.mp h
    rw [piecesFrom_cons hc, ih ht]
    rfl

/-- The comma behind an entry ends it. -/
theorem piecesFrom_append_comma (h : isEntryFrom depth t = true) (rest : Text) :
    piecesFrom depth (t ++ ',' :: rest) = t :: piecesFrom 0 rest := by
  induction t generalizing depth with
  | nil =>
    simp only [isEntryFrom, decide_eq_true_eq] at h
    simp [piecesFrom, h]
  | cons c t ih =>
    obtain ⟨hc, ht⟩ := isEntryFrom_cons.mp h
    rw [List.cons_append, piecesFrom_cons hc, ih ht]
    rfl

theorem piecesFrom_intercalate {ts : List Text} (h : ∀ t ∈ ts, isEntry t = true) (hn : ts ≠ []) :
    piecesFrom 0 ([','].intercalate ts) = ts := by
  induction ts with
  | nil => exact absurd rfl hn
  | cons t ts ih =>
    have ht := h t List.mem_cons_self
    cases ts with
    | nil => rw [List.intercalate_singleton, piecesFrom_of_isEntryFrom ht]
    | cons s ts =>
      have later := ih (fun u hu => h u (List.mem_cons_of_mem t hu)) (by simp)
      rw [List.intercalate_cons_cons, List.append_assoc, List.singleton_append,
        piecesFrom_append_comma ht, later]

/-! ### Blanks at the ends -/

theorem ne_comma_of_isBlank {c : Char} (h : isBlank c = true) : c ≠ ',' := by
  rintro rfl
  exact absurd h (by decide)

theorem angleDepth_of_isBlank {c : Char} (h : isBlank c = true) (depth : Nat) :
    angleDepth depth c = depth := by
  have open' : c ≠ '<' := by rintro rfl; exact absurd h (by decide)
  have close' : c ≠ '>' := by rintro rfl; exact absurd h (by decide)
  rw [angleDepth, if_neg open', if_neg close']

theorem map_trim_piecesFrom_blank_append (hb : Blank b) (depth : Nat) (t : Text) :
    (piecesFrom depth (b ++ t)).map trim = (piecesFrom depth t).map trim := by
  induction b with
  | nil => rfl
  | cons c b ih =>
    have hc := hb c List.mem_cons_self
    have one : Blank [c] := fun d hd => List.mem_singleton.mp hd ▸ hc
    rw [← ih fun d hd => hb d (List.mem_cons_of_mem c hd), List.cons_append,
      piecesFrom_cons (fun h => ne_comma_of_isBlank hc h.1), angleDepth_of_isBlank hc]
    cases piecesFrom depth (b ++ t) with
    | nil => rfl
    | cons piece pieces =>
      have := trim_blank_append one piece
      simpa using this

/-- Blanks behind a text go to its last piece. -/
theorem piecesFrom_append_blank (hb : Blank b) (depth : Nat) (t : Text) :
    ∃ pieces last, piecesFrom depth t = pieces ++ [last] ∧
      piecesFrom depth (t ++ b) = pieces ++ [last ++ b] := by
  induction t generalizing depth with
  | nil =>
    refine ⟨[], [], rfl, ?_⟩
    rw [List.nil_append, List.nil_append]
    induction b with
    | nil => rfl
    | cons c b ih =>
      have hc := hb c List.mem_cons_self
      rw [piecesFrom_cons (fun h => ne_comma_of_isBlank hc h.1), angleDepth_of_isBlank hc,
        ih fun d hd => hb d (List.mem_cons_of_mem c hd)]
      rfl
  | cons c t ih =>
    by_cases hc : c = ',' ∧ depth = 0
    · obtain ⟨pieces, last, h, h'⟩ := ih 0
      refine ⟨[] :: pieces, last, ?_, ?_⟩
      · rw [piecesFrom, if_pos hc, h, List.cons_append]
      · rw [List.cons_append, piecesFrom, if_pos hc, h', List.cons_append]
    · obtain ⟨pieces, last, h, h'⟩ := ih (angleDepth depth c)
      rw [List.cons_append, piecesFrom_cons hc, piecesFrom_cons hc, h, h']
      cases pieces with
      | nil => exact ⟨[], c :: last, rfl, rfl⟩
      | cons piece pieces => exact ⟨(c :: piece) :: pieces, last, rfl, rfl⟩

theorem map_trim_piecesFrom_append_blank (hb : Blank b) (depth : Nat) (t : Text) :
    (piecesFrom depth (t ++ b)).map trim = (piecesFrom depth t).map trim := by
  obtain ⟨pieces, last, h, h'⟩ := piecesFrom_append_blank hb depth t
  simp [h, h', trim_append_blank hb]

/-- A trimmed clause has the entries of the clause. -/
theorem splitClause_trim (t : Text) : splitClause (some (trim t)) = splitClause (some t) := by
  obtain ⟨a, b, ht, ha, hb, -, -⟩ := exists_trim t
  have same : (piecesFrom 0 t).map trim = (piecesFrom 0 (trim t)).map trim := by
    conv_lhs => rw [ht]
    rw [map_trim_piecesFrom_blank_append ha, map_trim_piecesFrom_append_blank hb]
  rw [splitClause, splitClause, splitParameters, splitParameters, same]

theorem trim_eq_nil_iff : trim t = [] ↔ Blank t := by
  rw [← words_eq_nil_iff, ← words_trim]
  constructor
  · intro h
    rw [h, words_nil]
  · intro h
    by_contra hn
    obtain ⟨-, -, -, -, -, hh, -⟩ := exists_trim t
    obtain ⟨c, rest, hc⟩ := List.exists_cons_of_ne_nil hn
    rw [words_eq_nil_iff, hc] at h
    rw [hc] at hh
    have := hh c rfl
    rw [h c List.mem_cons_self] at this
    exact absurd this (by simp)

theorem collapse_eq_nil_iff : collapse t = [] ↔ Blank t := by
  rw [← words_eq_nil_iff]
  constructor
  · intro h
    rw [← words_collapse, h, words_nil]
  · intro h
    rw [collapse, h]
    rfl

theorem mem_intercalate {ts : List Text} {c : Char} {sep : Text} (h : c ∈ sep.intercalate ts) :
    c ∈ sep ∨ ∃ t ∈ ts, c ∈ t := by
  induction ts with
  | nil => exact absurd h List.not_mem_nil
  | cons t ts ih =>
    cases ts with
    | nil => exact .inr ⟨t, List.mem_cons_self, by simpa using h⟩
    | cons s ts =>
      rw [List.intercalate_cons_cons, List.append_assoc] at h
      rcases List.mem_append.mp h with h | h
      · exact .inr ⟨t, List.mem_cons_self, h⟩
      rcases List.mem_append.mp h with h | h
      · exact .inl h
      rcases ih h with h | ⟨u, hu, h⟩
      · exact .inl h
      · exact .inr ⟨u, List.mem_cons_of_mem t hu, h⟩

theorem not_blank_intercalate {ts : List Text} (hn : ts ≠ []) (h : ∀ t ∈ ts, ¬Blank t) :
    ¬Blank ([','].intercalate ts) := by
  obtain ⟨t, ts, rfl⟩ := List.exists_cons_of_ne_nil hn
  have first := h t List.mem_cons_self
  cases ts with
  | nil => rwa [List.intercalate_singleton]
  | cons s ts =>
    rw [List.intercalate_cons_cons, List.append_assoc]
    exact fun hb => first hb.left

/-- Entries that are written between commas are read back in order, with single spaces. -/
theorem splitClause_intercalate {ts : List Text} (h : ∀ t ∈ ts, isEntry t = true ∧ ¬Blank t) :
    splitClause (some ([','].intercalate ts)) = ts.map collapse := by
  by_cases hn : ts = []
  · subst hn
    rfl
  have parts : splitParameters ([','].intercalate ts) = ts.map trim := by
    rw [splitParameters, piecesFrom_intercalate (fun t ht => (h t ht).1) hn]
    refine List.filter_eq_self.mpr fun s hs => ?_
    obtain ⟨t, ht, rfl⟩ := List.mem_map.mp hs
    rw [decide_eq_true_eq, ne_eq, trim_eq_nil_iff]
    exact (h t ht).2
  rw [splitClause, parts, List.map_map]
  have same : ts.map (collapse ∘ trim) = ts.map collapse :=
    List.map_congr_left fun t _ => collapse_trim t
  rw [same]
  refine List.filter_eq_self.mpr fun s hs => ?_
  obtain ⟨t, ht, rfl⟩ := List.mem_map.mp hs
  rw [decide_eq_true_eq, ne_eq, collapse_eq_nil_iff]
  exact (h t ht).2

end SourceSurvey.Source
