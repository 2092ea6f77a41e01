import SourceSurvey.Proofs.Mirror
import SourceSurvey.Proofs.Words

/-! Masking line by line. The scan looks ahead for signs only, and no sign goes on behind the end of
a line, so what stands behind a line that is over does not change how it is masked. A carriage
return in front of every newline changes nothing but that it stays, or is masked by a space: it ends
no region and opens none, and where it takes the place of a newline behind a backslash, the newline
that follows is no end of the literal. -/

namespace SourceSurvey.Source

open Text

variable {language : Language} {here : Standing} {c : Char} {a b rest rest' t t' : Text}

/-! ### Looking ahead -/

/-- Texts that look the same to a scan which is in front of them. -/
structure SameAhead (rest rest' : Text) : Prop where
  signs : ∀ s ∈ ['/', '*', '"'], rest.head? = some s ↔ rest'.head? = some s
  verbatim : rest.take 2 = ['$', '"'] ↔ rest'.take 2 = ['$', '"']
  empty : rest = [] ↔ rest' = []

theorem SameAhead.opening?_eq (h : SameAhead rest rest') :
    opening? language c rest = opening? language c rest' := by
  have slash := propext (h.signs '/' (by simp))
  have star := propext (h.signs '*' (by simp))
  have quote := propext (h.signs '"' (by simp))
  have verbatim := propext h.verbatim
  simp only [opening?, slash, star, quote, verbatim]

theorem SameAhead.step_eq (h : SameAhead rest rest') :
    step language here c rest = step language here c rest' := by
  have slash := propext (h.signs '/' (by simp))
  have quote := propext (h.signs '"' (by simp))
  have empty : (rest ≠ []) = (rest' ≠ []) := congrArg Not (propext h.empty)
  obtain ⟨owed, region⟩ := here
  cases owed with
  | succ owed => rfl
  | zero => cases region <;> simp only [step, literalStep, h.opening?_eq, slash, quote, empty]

theorem SameAhead.keeps_eq (h : SameAhead rest rest') :
    keeps language here c rest = keeps language here c rest' := by
  rw [keeps, keeps, h.opening?_eq]

/-- A newline opens no sign and is no part of one. -/
theorem opening?_newline (rest : Text) : opening? language '\n' rest = none := by
  cases language <;> simp [opening?, Language.verbatimMark]

theorem step_newline (rest rest' : Text) :
    step language here '\n' rest = step language here '\n' rest' := by
  obtain ⟨owed, region⟩ := here
  cases owed with
  | succ owed => rfl
  | zero => cases region <;> simp [step, literalStep, opening?_newline]

theorem mask_newline (rest : Text) : maskFrom language here ('\n' :: rest) =
    '\n' :: maskFrom language (step language here '\n' rest) rest := by
  rw [maskFrom, maskChar, if_pos rfl, ite_self]
  rfl

/-! ### The end of a line -/

/-- Whole lines. -/
def Closed (a : Text) : Prop := a = [] ∨ a.getLast? = some '\n'

instance (a : Text) : Decidable (Closed a) := inferInstanceAs (Decidable (_ ∨ _))

theorem Closed.tail (h : Closed (c :: a)) : Closed a ∧ (a = [] → c = '\n') := by
  cases a with
  | nil => exact ⟨.inl rfl, fun _ => by simpa [Closed] using h⟩
  | cons d a => exact ⟨.inr (by simpa [Closed] using h), fun h => absurd h (by simp)⟩

theorem Closed.sameAhead (h : Closed a) (hn : a ≠ []) (b : Text) : SameAhead a (a ++ b) := by
  obtain ⟨c, a, rfl⟩ := List.exists_cons_of_ne_nil hn
  refine ⟨fun s _ => Iff.rfl, ?_, by simp⟩
  cases a with
  | nil =>
    rw [h.tail.2 rfl]
    simp
  | cons d a => exact Iff.rfl

theorem Closed.step_append (language : Language) (here : Standing)
    (h : Closed (c :: a)) (b : Text) :
    step language here c (a ++ b) = step language here c a ∧
      keeps language here c (a ++ b) = keeps language here c a := by
  by_cases hn : a = []
  · subst hn
    rw [h.tail.2 rfl, keeps, keeps, opening?_newline, opening?_newline]
    exact ⟨step_newline _ _, rfl⟩
  · have same := h.tail.1.sameAhead hn b
    exact ⟨same.step_eq.symm, same.keeps_eq.symm⟩

/-- Lines are masked as they are without those behind them. -/
theorem maskFrom_append (h : Closed a) (b : Text) : maskFrom language here (a ++ b) =
    maskFrom language here a ++ maskFrom language (standingAfter language here a) b := by
  induction a generalizing here with
  | nil => rfl
  | cons c a ih =>
    obtain ⟨step, keeps⟩ := h.step_append language here b
    rw [List.cons_append, maskFrom, maskFrom, step, keeps, ih h.tail.1,
      List.append_assoc, standingAfter]

theorem mask_append (h : Closed a) (hc : standingAfter language .code a = .code) (b : Text) :
    mask language (a ++ b) = mask language a ++ mask language b := by
  rw [mask, maskFrom_append h, hc]
  rfl

theorem Mirrors.count_newline {m : Text} (h : Mirrors t m) : m.count '\n' = t.count '\n' := by
  induction h with
  | nil => rfl
  | keep _ ih => rw [List.count_cons, List.count_cons, ih]
  | @blank c t m _ ih =>
    rw [List.count_append, List.count_cons, ih, Nat.add_comm, maskChar]
    by_cases hc : c = '\n'
    · simp [hc]
    · simp [hc, List.count_replicate]

theorem count_mask (language : Language) (t : Text) : (mask language t).count '\n' = t.count '\n' :=
  (mirrors_mask language t).count_newline

/-- Masked lines are lines. -/
theorem exists_mask_eq (language : Language) (h : Closed a) :
    a = [] ∨ ∃ x, mask language a = x ++ ['\n'] := by
  refine h.imp_right fun hl => ?_
  obtain ⟨a, rfl⟩ := List.getLast?_eq_some_iff.mp hl
  obtain ⟨x, m, hm, -, hn⟩ := (mirrors_mask language (a ++ ['\n'])).split
  refine ⟨x, hm.trans (congrArg (x ++ ·) ?_)⟩
  cases hn with
  | keep h =>
    cases h
    rfl
  | blank h =>
    cases h
    rfl

/-! ### Carriage returns -/

/-- A text with a carriage return in front of every newline. -/
def returned (t : Text) : Text := t.flatMap fun c => if c = '\n' then ['\r', '\n'] else [c]

theorem returned_newline (t : Text) : returned ('\n' :: t) = '\r' :: '\n' :: returned t := rfl

theorem returned_cons (hc : c ≠ '\n') (t : Text) : returned (c :: t) = c :: returned t := by
  rw [returned, List.flatMap_cons, if_neg hc]
  rfl

/-- A text and the same text with a blank in front of every newline. -/
inductive Edged : Text → Text → Prop
  | nil : Edged [] []
  | newline {d : Char} {t t' : Text} (hd : isBlank d = true) (hn : d ≠ '\n') (h : Edged t t') :
    Edged ('\n' :: t) (d :: '\n' :: t')
  | cons {c : Char} {t t' : Text} (hc : c ≠ '\n') (h : Edged t t') : Edged (c :: t) (c :: t')

/-- The characters still owed to a sign are no newlines, or the sign is a backslash. -/
def Ready (here : Standing) (t : Text) : Prop :=
  '\n' ∉ t.take here.owed ∨ here.owed = 1 ∧ (here.region = .quoted ∨ here.region = .character)

theorem ready_settled (region : Region) (t : Text) : Ready (.settled region) t :=
  .inl (by simp [Standing.settled])

theorem ready_one {d : Char} {region : Region} (hr : rest.head? = some d) (hd : d ≠ '\n') :
    Ready ⟨1, region⟩ rest := by
  obtain ⟨rest, rfl⟩ := List.head?_eq_some_iff.mp hr
  exact .inl (by simpa using Ne.symm hd)

theorem ready_opening? {s : Standing} (h : opening? language c rest = some s) : Ready s rest := by
  unfold opening? at h
  split_ifs at h with h1 h2 h3 h4 h5 h6 <;> cases h
  · exact ready_one h1.2 (by decide)
  · exact ready_one h2.2 (by decide)
  · exact ready_one h3.2 (by decide)
  · exact .inl (by rw [h4.2]; decide)
  · exact .inl (by simp)
  · exact .inl (by simp)

theorem ready_literalStep {region : Region} {close : Char}
    (hr : region = .quoted ∨ region = .character) :
    Ready (literalStep region close c rest) rest := by
  rw [literalStep]
  split_ifs
  · exact .inr ⟨rfl, hr⟩
  · exact ready_settled _ _
  · exact ready_settled _ _

/-- Behind a character that is read, owed characters are still no newlines. -/
theorem Ready.step (language : Language) (h : Ready here (c :: rest)) :
    Ready (step language here c rest) rest := by
  obtain ⟨owed, region⟩ := here
  cases owed with
  | succ owed =>
    rcases h with h | ⟨h, -⟩
    · exact .inl fun hm => h (List.mem_cons_of_mem c hm)
    · obtain rfl : owed = 0 := by simpa using h
      exact ready_settled region rest
  | zero =>
    cases region with
    | code =>
      show Ready ((opening? language c rest).getD .code) rest
      cases ho : opening? language c rest with
      | none => exact ready_settled .code rest
      | some s => exact ready_opening? ho
    | lineComment =>
      simp only [Source.step]
      split_ifs <;> exact ready_settled _ _
    | blockComment =>
      simp only [Source.step]
      split_ifs with h
      · exact ready_one h.2 (by decide)
      · exact ready_settled _ _
    | verbatim =>
      simp only [Source.step]
      split_ifs with h h'
      · exact ready_one h' (by decide)
      · exact ready_settled _ _
      · exact ready_settled _ _
    | quoted => exact ready_literalStep (.inl rfl)
    | character => exact ready_literalStep (.inr rfl)

theorem sameAhead_returned (t : Text) : SameAhead t (returned t) := by
  have head : ∀ t : Text, ∀ s : Char, s ≠ '\n' → s ≠ '\r' →
      (t.head? = some s ↔ (returned t).head? = some s) := by
    intro t s hn hr
    cases t with
    | nil => exact Iff.rfl
    | cons c t =>
      by_cases hc : c = '\n'
      · subst hc
        simp [returned_newline, Ne.symm hn, Ne.symm hr]
      · rw [returned_cons hc, List.head?_cons, List.head?_cons]
  refine ⟨fun s hs => head t s ?_ ?_, ?_, ?_⟩
  · rintro rfl
    exact absurd hs (by decide)
  · rintro rfl
    exact absurd hs (by decide)
  · cases t with
    | nil => exact Iff.rfl
    | cons c t =>
      by_cases hc : c = '\n'
      · subst hc
        simp [returned_newline]
      · rw [returned_cons hc]
        have later := head t '"' (by decide) (by decide)
        have pair : ∀ t : Text, (c :: t).take 2 = ['$', '"'] ↔ c = '$' ∧
            t.head? = some '"' := fun t => by
          cases t <;> simp
        rw [pair, pair, later]
  · cases t with
    | nil => exact Iff.rfl
    | cons c t =>
      by_cases hc : c = '\n'
      · subst hc
        simp [returned_newline]
      · simp [returned_cons hc]

/-- A carriage return and a newline lead where the newline alone does. -/
theorem step_returned (h : Ready here ('\n' :: rest)) (u v : Text) :
    step language (step language here '\r' u) '\n' v = step language here '\n' rest := by
  have opens : opening? language '\r' u = none := by
    cases language <;> simp [opening?, Language.verbatimMark]
  obtain ⟨owed, region⟩ := here
  cases owed with
  | zero =>
      cases region <;> simp [step, literalStep, opens, opening?_newline,
        Standing.settled, Standing.code]
  | succ owed =>
    rcases h with h | ⟨ho, hr⟩
    · exact absurd List.mem_cons_self h
    · obtain rfl : owed = 0 := by simpa using ho
      rcases hr with rfl | rfl <;> simp [step, literalStep, Standing.settled]

theorem Edged.append {w : Text} (hw : '\n' ∉ w) (h : Edged t t') : Edged (w ++ t) (w ++ t') := by
  induction w with
  | nil => exact h
  | cons c w ih =>
    rw [List.mem_cons, not_or] at hw
    exact .cons (Ne.symm hw.1) (ih hw.2)

theorem edged_maskFrom (h : Ready here t) :
    Edged (maskFrom language here t) (maskFrom language here (returned t)) := by
  induction t generalizing here with
  | nil => exact .nil
  | cons c t ih =>
    by_cases hc : c = '\n'
    · subst hc
      have later := ih (h.step language)
      rw [returned_newline, mask_newline, maskFrom, mask_newline, step_returned h]
      have shown :
          ∃ d, (if keeps language here '\r' ('\n' :: returned t) = true then ['\r'] else
            maskChar '\r') = [d] ∧
          isBlank d = true ∧ d ≠ '\n' := by
        split
        · exact ⟨'\r', rfl, by decide, by decide⟩
        · exact ⟨' ', by decide, by decide, by decide⟩
      obtain ⟨d, hd, hb, hn⟩ := shown
      rw [hd]
      exact .newline hb hn later
    · have ahead := sameAhead_returned t
      have shown : '\n' ∉ (if keeps language here c t = true then [c] else maskChar c) := by
        split
        · simpa using Ne.symm hc
        · rw [maskChar, if_neg hc]
          intro hm
          exact absurd (List.eq_of_mem_replicate hm) (by decide)
      rw [returned_cons hc, maskFrom, maskFrom, ← ahead.keeps_eq, ← ahead.step_eq]
      exact (ih (h.step language)).append shown

/-- The masked text has a blank in front of every newline, too. -/
theorem edged_mask (language : Language) (t : Text) :
    Edged (mask language t) (mask language (returned t)) :=
  edged_maskFrom (ready_settled .code t)

end SourceSurvey.Source
