import SourceSurvey.Proofs.Brackets
import SourceSurvey.Proofs.Splitting

/-! Lists written again. A comma cuts only where no bracket is open, so of the entries of a list
only the last one may leave a bracket open, and behind all others the depth is zero again. Entries
written one behind the other with a comma and a space between them are therefore cut at these commas
and nowhere else, however unbalanced the text was from which they come. Single spaces in the entries
change nothing of it, since neither depths nor commas are blanks. -/

namespace SourceSurvey.Source

open Text

variable {s t x p : Text} {ts : List Text} {depth : Nat}

/-! ### One piece -/

/-- A text that is not cut is its only piece. -/
theorem piecesFrom_of_not_isCut (h : ∀ i, ¬IsCut (x ++ p) (x.length + i)) :
    piecesFrom (x.foldl angleDepth 0) p = [p] := by
  induction p generalizing x with
  | nil => rfl
  | cons c p ih =>
    have here : ¬(c = ',' ∧ x.foldl angleDepth 0 = 0) :=
      fun hc => h 0 ((isCut_append_cons x c p).mpr hc)
    have later := ih (x := x ++ [c]) fun i => by
      have shifted := h (i + 1)
      rwa [← List.singleton_append, ← List.append_assoc, Nat.add_comm i 1, ← Nat.add_assoc,
        ← List.length_singleton (a := c), ← List.length_append] at shifted
    rw [List.foldl_append, List.foldl_cons, List.foldl_nil] at later
    rw [piecesFrom_cons here, later, List.modifyHead_cons]

/-- An entry is one piece and closes every bracket that it opens. -/
theorem isEntryFrom_iff :
    isEntryFrom depth t = true ↔ piecesFrom depth t = [t] ∧ t.foldl angleDepth depth = 0 := by
  induction t generalizing depth with
  | nil => simp [isEntryFrom, piecesFrom]
  | cons c t ih =>
    rw [isEntryFrom_cons, ih, List.foldl_cons]
    by_cases hc : c = ',' ∧ depth = 0
    · have cut : piecesFrom depth (c :: t) ≠ [c :: t] := by simp [piecesFrom, hc]
      exact iff_of_false (fun h => h.1 hc) fun h => cut h.1
    · have same : piecesFrom depth (c :: t) = [c :: t] ↔
          piecesFrom (angleDepth depth c) t = [t] := by
        rw [piecesFrom_cons hc]
        rcases piecesFrom (angleDepth depth c) t with _ | ⟨first, _ | ⟨second, others⟩⟩ <;> simp
      rw [same]
      exact and_iff_right hc

/-- The pieces of a text with their commas are the text. -/
theorem intercalate_piecesFrom (depth : Nat) (t : Text) :
    [','].intercalate (piecesFrom depth t) = t := by
  induction t generalizing depth with
  | nil => rfl
  | cons c t ih =>
    rw [piecesFrom]
    split
    · next hc =>
      have later := ih 0
      obtain ⟨first, others, hp⟩ := List.exists_cons_of_ne_nil (piecesFrom_ne_nil 0 t)
      rw [hp] at later ⊢
      rw [List.intercalate_cons_cons, later, hc.1]
      rfl
    · have later := ih (angleDepth depth c)
      obtain ⟨first, others, hp⟩ :=
        List.exists_cons_of_ne_nil (piecesFrom_ne_nil (angleDepth depth c) t)
      rw [hp] at later ⊢
      rw [List.modifyHead_cons]
      cases others with
      | nil => rw [List.intercalate_singleton] at later ⊢; rw [later]
      | cons second others =>
        rw [List.intercalate_cons_cons, List.append_assoc] at later ⊢
        rw [List.cons_append, later]

/-! ### Blanks inside -/

/-- The text without its blanks is cut where the text is. -/
theorem piecesFrom_filter (depth : Nat) (t : Text) :
    piecesFrom depth (t.filter fun c => !isBlank c) = (piecesFrom depth t).map
      (·.filter fun c => !isBlank c) := by
  induction t generalizing depth with
  | nil => rfl
  | cons c t ih =>
    cases hb : isBlank c with
    | true =>
      rw [List.filter_cons_of_neg (by simp [hb]), piecesFrom_cons fun h =>
        ne_comma_of_isBlank hb h.1, angleDepth_of_isBlank hb, ih]
      cases piecesFrom depth t <;> simp [hb]
    | false =>
      rw [List.filter_cons_of_pos (by simp [hb]), piecesFrom, piecesFrom]
      split
      · rw [ih]
        rfl
      · rw [ih]
        cases piecesFrom (angleDepth depth c) t <;> simp [hb]

theorem foldl_angleDepth_filter (depth : Nat) (t : Text) :
    (t.filter fun c => !isBlank c).foldl angleDepth depth = t.foldl angleDepth depth := by
  induction t generalizing depth with
  | nil => rfl
  | cons c t ih =>
    cases hb : isBlank c with
    | true =>
        rw [List.filter_cons_of_neg (by simp [hb]), ih, List.foldl_cons, angleDepth_of_isBlank hb]
    | false => rw [List.filter_cons_of_pos (by simp [hb]), List.foldl_cons, List.foldl_cons, ih]

theorem filter_eq_of_words_eq (h : words s = words t) :
    (s.filter fun c => !isBlank c) = t.filter fun c => !isBlank c := by
  rw [← flatten_words, h, flatten_words]

/-- Texts of the same words leave the same brackets open. -/
theorem foldl_angleDepth_congr (h : words s = words t) (depth : Nat) :
    s.foldl angleDepth depth = t.foldl angleDepth depth := by
  rw [← foldl_angleDepth_filter, filter_eq_of_words_eq h, foldl_angleDepth_filter]

/-- Of two texts of the same words, the one is one piece if the other is. -/
theorem piecesFrom_eq_singleton_of_words_eq (h : words s = words t)
    (ht : piecesFrom depth t = [t]) :
    piecesFrom depth s = [s] := by
  have counted := congrArg List.length (piecesFrom_filter depth s)
  rw [filter_eq_of_words_eq h, piecesFrom_filter, ht, List.length_map, List.length_map,
    List.length_singleton] at counted
  obtain ⟨piece, hp⟩ := List.length_eq_one_iff.mp counted.symm
  have joined := intercalate_piecesFrom depth s
  rw [hp, List.intercalate_singleton] at joined
  rw [hp, joined]

/-! ### Entries one behind the other -/

/-- Entries of which none is cut, and none but the last leaves a bracket open. -/
structure Rejoins (ts : List Text) : Prop where
  whole : ∀ t ∈ ts, piecesFrom 0 t = [t]
  closed : ts.Pairwise fun t _ => t.foldl angleDepth 0 = 0

namespace Rejoins

theorem tail (h : Rejoins (t :: ts)) : Rejoins ts :=
  ⟨fun s hs => h.whole s (List.mem_cons_of_mem t hs), (List.pairwise_cons.mp h.closed).2⟩

theorem single (h : Rejoins ts) (ht : t ∈ ts) : Rejoins [t] :=
  ⟨fun s hs => h.whole s (List.mem_singleton.mp hs ▸ ht), List.pairwise_singleton _ _⟩

/-- What is done to the blanks of entries does not matter. -/
theorem map {f : Text → Text} (hf : ∀ t, words (f t) = words t) (h : Rejoins ts) :
    Rejoins (ts.map f) where
  whole :=
    List.forall_mem_map.mpr fun t ht => piecesFrom_eq_singleton_of_words_eq (hf t) (h.whole t ht)
  closed :=
    List.pairwise_map.mpr (h.closed.imp fun closed => by rwa [foldl_angleDepth_congr (hf _)])

/-- The pieces of entries written one behind the other are the entries, up to the spaces between
them. -/
theorem map_trim_piecesFrom (h : Rejoins ts) (hn : ts ≠ []) :
    (piecesFrom 0 ([',', ' '].intercalate ts)).map trim = ts.map trim := by
  induction ts with
  | nil => exact absurd rfl hn
  | cons t ts ih =>
    have whole := h.whole t List.mem_cons_self
    cases ts with
    | nil => rw [List.intercalate_singleton, whole]
    | cons s ts =>
      have closed := (List.pairwise_cons.mp h.closed).1 s List.mem_cons_self
      have entry : isEntryFrom 0 t = true := isEntryFrom_iff.mpr ⟨whole, closed⟩
      have space : Blank [' '] := by decide
      have split :
          [',', ' '].intercalate
            (t :: s :: ts) = t ++ ',' :: ([' '] ++ [',', ' '].intercalate (s :: ts)) := by
        rw [List.intercalate_cons_cons, List.append_assoc]
        rfl
      rw [split, piecesFrom_append_comma entry, List.map_cons,
        map_trim_piecesFrom_blank_append space,
        ih h.tail (List.cons_ne_nil s ts), List.map_cons, List.map_cons, List.map_cons]

variable (h : Rejoins ts) (some : ∀ t ∈ ts, ¬Blank t)
include h some

theorem splitParameters_eq : splitParameters ([',', ' '].intercalate ts) = ts.map trim := by
  by_cases hn : ts = []
  · subst hn
    rfl
  · rw [splitParameters, h.map_trim_piecesFrom hn]
    refine List.filter_eq_self.mpr (List.forall_mem_map.mpr fun t ht => ?_)
    rw [decide_eq_true_eq, ne_eq, trim_eq_nil_iff]
    exact some t ht

theorem splitClause_eq : splitClause (.some ([',', ' '].intercalate ts)) = ts.map collapse := by
  rw [Source.splitClause_eq, h.splitParameters_eq some, List.map_map]
  exact List.map_congr_left fun t _ => collapse_trim t

end Rejoins

/-! ### Entries of a text -/

/-- A piece that a comma ends closes every bracket that it opens. -/
theorem Stretch.IsPiece.closed {u : Stretch} (h : u.IsPiece t) (hc : IsCut t u.stop) :
    (u.text t).foldl angleDepth 0 = 0 := by
  obtain ⟨x, y, ht, start, stop⟩ := Stretch.exists_text h.le h.inside
  have front : x.foldl angleDepth 0 = 0 := by
    have depth := h.depthAt_start
    rwa [depthAt, start, ht, List.take_left] at depth
  have behind := depthAt_append x (u.text t ++ y) (u.text t).length
  rwa [← ht, ← stop, hc.2, List.take_left, front, eq_comm] at behind

theorem rejoins_splitParameters (t : Text) : Rejoins (splitParameters t) where
  whole p hp := by
    rw [splitParameters_eq_partsOf] at hp
    obtain ⟨u, hu, rfl⟩ := List.mem_map.mp hp
    obtain ⟨v, hv, rfl, -⟩ := mem_partsOf.mp hu
    refine piecesFrom_of_not_isCut (x := []) fun i => ?_
    rw [List.nil_append, List.length_nil, Nat.zero_add]
    exact Stretch.not_isCut_trimmed (isPiece_of_mem_stretches hv) i
  closed := by
    rw [splitParameters_eq]
    refine List.Pairwise.filter _ (List.pairwise_map.mpr (List.pairwise_map.mpr ?_))
    refine (finds_stretches t).ordered.imp_of_mem fun {u v} hu hv behind => ?_
    have first := isPiece_of_mem_stretches hu
    have second := isPiece_of_mem_stretches hv
    have cut : IsCut t u.stop := first.ended.resolve_left fun whole => by
      have := second.le
      have := second.inside
      omega
    rw [foldl_angleDepth_congr (words_trim _), first.closed cut]

theorem rejoins_splitClause (clause : Option Text) : Rejoins (splitClause clause) := by
  cases clause with
  | none => exact ⟨fun _ h => absurd h List.not_mem_nil, .nil⟩
  | some t =>
    rw [splitClause_eq]
    exact (rejoins_splitParameters t).map words_collapse

theorem trim_of_mem_splitParameters (h : p ∈ splitParameters t) : trim p = p := by
  obtain ⟨piece, -, rfl⟩ := List.mem_map.mp (List.mem_of_mem_filter h)
  exact trim_trim piece

theorem collapse_of_mem_splitClause {clause : Option Text} (h : p ∈ splitClause clause) :
    collapse p = p ∧ ¬Blank p := by
  cases clause with
  | none => exact absurd h List.not_mem_nil
  | some t =>
    obtain ⟨hp, hn⟩ := List.mem_filter.mp h
    obtain ⟨part, -, rfl⟩ := List.mem_map.mp hp
    have kept : collapse (collapse part) = collapse part := by rw [collapse_eq_iff, words_collapse]
    refine ⟨kept, fun blank => of_decide_eq_true hn ?_⟩
    rw [← kept, collapse_eq_nil_iff]
    exact blank

/-- Splitting and joining are inverse. The entries of a list or a clause, written one behind the
other with a comma and a space between them, are the entries of what is written, and each entry
alone is its own only entry. -/
theorem split_rejoined (t : Text) (clause : Option Text) :
    splitParameters ([',', ' '].intercalate (splitParameters t)) = splitParameters t ∧
      (∀ p ∈ splitParameters t, splitParameters p = [p]) ∧
      splitClause (some ([',', ' '].intercalate (splitClause clause))) = splitClause clause ∧
      ∀ entry ∈ splitClause clause, splitClause (some entry) = [entry] := by
  have parts := rejoins_splitParameters t
  have entries := rejoins_splitClause clause
  refine ⟨?_, fun p hp => ?_, ?_, fun entry he => ?_⟩
  · rw [parts.splitParameters_eq fun p => not_blank_of_mem_splitParameters]
    exact (List.map_congr_left fun p hp => trim_of_mem_splitParameters hp).trans (List.map_id _)
  · have alone :=
      (parts.single hp).splitParameters_eq (by simpa using not_blank_of_mem_splitParameters hp)
    rwa [List.intercalate_singleton, List.map_singleton, trim_of_mem_splitParameters hp] at alone
  · rw [entries.splitClause_eq fun entry he => (collapse_of_mem_splitClause he).2]
    exact (List.map_congr_left fun entry he => (collapse_of_mem_splitClause he).1).trans
      (List.map_id _)
  · obtain ⟨kept, some⟩ := collapse_of_mem_splitClause he
    have alone := (entries.single he).splitClause_eq (by simpa using some)
    rwa [List.intercalate_singleton, List.map_singleton, kept] at alone

/-- A stray bracket closes nothing, and what the last entry leaves open stays open. -/
example : splitClause (some ([',', ' '].intercalate (splitClause (some "A>, ,B<C, D".toList)))) =
    ["A>".toList, "B<C, D".toList] := by decide

end SourceSurvey.Source
