import SourceSurvey.Proofs.MaskLines

/-! A text cut at the end of a line. No sign goes on behind the end of a line and no escape owes a
character there, so whatever the region with which the scan began, it stands settled in a region
behind whole lines, and it stands so in front of any text. Masking goes on from that region, and
where it is code, both texts are masked alone. -/

namespace SourceSurvey.Source

open Text

variable {language : Language} {here : Standing} {c : Char} {a b x y : Text}

/-- The standing behind the first part of a text, where the second part follows. -/
def standingBetween (language : Language) : Standing → Text → Text → Standing
  | here, [], _ => here
  | here, c :: x, y => standingBetween language (step language here c (x ++ y)) x y

theorem standingBetween_nil (here : Standing) (x : Text) :
    standingBetween language here x [] = standingAfter language here x := by
  induction x generalizing here with
  | nil => rfl
  | cons c x ih => rw [standingBetween, standingAfter, ih, List.append_nil]

theorem standingAfter_append (here : Standing) (x y : Text) :
    standingAfter language here (x ++ y) = standingAfter language
      (standingBetween language here x y) y := by
  induction x generalizing here with
  | nil => rfl
  | cons c x ih => rw [List.cons_append, standingAfter, ih, standingBetween]

/-- The scan of whole lines sees nothing of what stands behind them. -/
theorem Closed.standingBetween_append (h : Closed (x ++ y)) (here : Standing) (b : Text) :
    standingBetween language here x (y ++ b) = standingBetween language here x y := by
  induction x generalizing here with
  | nil => rfl
  | cons c x ih =>
    have closed : Closed (c :: (x ++ y)) := h
    obtain ⟨same, -⟩ := closed.step_append language here b
    rw [standingBetween, standingBetween, ← List.append_assoc, same, ih closed.tail.1]

/-- A newline that closes a line is the last character owed, if any is. -/
theorem exists_step_newline (h : Ready here ['\n']) :
    ∃ region, step language here '\n' [] = .settled region := by
  obtain ⟨owed, region⟩ := here
  cases owed with
  | succ owed =>
    rcases h with h | ⟨ho, -⟩
    · exact absurd (List.mem_cons_self ..) h
    · obtain rfl : owed = 0 := by simpa using ho
      exact ⟨region, rfl⟩
  | zero =>
    cases region with
    | code => exact ⟨.code, by rw [step, opening?_newline]; rfl⟩
    | lineComment => exact ⟨.code, rfl⟩
    | blockComment => exact ⟨.blockComment, rfl⟩
    | quoted => exact ⟨.quoted, rfl⟩
    | verbatim => exact ⟨.verbatim, rfl⟩
    | character => exact ⟨.character, rfl⟩

/-- Behind whole lines the scan is settled in a region. -/
theorem exists_standingAfter_newline (h : Ready here (a ++ ['\n'])) :
    ∃ region, standingAfter language here (a ++ ['\n']) = .settled region := by
  induction a generalizing here with
  | nil => exact exists_step_newline h
  | cons c a ih => exact ih (h.step language)

theorem Closed.exists_standingAfter (h : Closed a) (language : Language) (start : Region) :
    ∃ region, standingAfter language (.settled start) a = .settled region := by
  rcases h with rfl | last
  · exact ⟨start, rfl⟩
  · obtain ⟨a, rfl⟩ := List.getLast?_eq_some_iff.mp last
    exact exists_standingAfter_newline (ready_settled start _)

/-- From whatever region, whole lines lead to a region, at each of their places the scan stands as
it does without what follows them, and what follows is masked from the region behind them: alone,
where that is code. -/
theorem mask_closed_append (language : Language) (start : Region) (h : Closed a) (b : Text) :
    ∃ region, standingAfter language (.settled start) a = .settled region ∧
      (∀ x y, a = x ++ y →
        standingBetween language (.settled start) x (y ++ b) = standingBetween language
          (.settled start) x y) ∧
      maskFrom language (.settled start) (a ++ b) =
        maskFrom language (.settled start) a ++ maskFrom language (.settled region) b ∧
      standingAfter language (.settled start) (a ++ b) = standingAfter language
        (.settled region) b ∧
      (start = .code →
        mask language (a ++ b) = mask language a ++ maskFrom language (.settled region) b ∧
        (region = .code → mask language (a ++ b) = mask language a ++ mask language b)) := by
  obtain ⟨region, reached⟩ := h.exists_standingAfter language start
  have masked : maskFrom language (.settled start) (a ++ b) =
      maskFrom language (.settled start) a ++ maskFrom language
        (standingAfter language (.settled start) a) b :=
    maskFrom_append h b
  rw [reached] at masked
  have between : standingBetween language (.settled start) a b = .settled region := by
    have whole : Closed (a ++ []) := by rwa [List.append_nil]
    have same :
        standingBetween language (.settled start) a b = standingBetween language
          (.settled start) a [] :=
      whole.standingBetween_append (.settled start) b
    rw [same, standingBetween_nil, reached]
  refine ⟨region, reached, ?_, masked, by rw [standingAfter_append, between], ?_⟩
  · rintro x y rfl
    exact h.standingBetween_append _ b
  · rintro rfl
    exact ⟨masked, fun code => by subst code; exact masked⟩

/-- A literal goes on behind an escaped newline, and ends in the text that follows. -/
theorem mask_closed_append_escape :
    Closed "c = \"x\\\n".toList ∧
      standingAfter .java .code "c = \"x\\\n".toList = .settled .quoted ∧
      mask .java ("c = \"x\\\n".toList ++ "y\"; // z".toList) =
        mask .java "c = \"x\\\n".toList ++ maskFrom .java
          (.settled .quoted) "y\"; // z".toList := by
  have closed : Closed "c = \"x\\\n".toList := by decide
  have inside : standingAfter .java .code "c = \"x\\\n".toList = .settled .quoted := by decide
  obtain ⟨region, reached, -, -, -, masked⟩ :=
    mask_closed_append .java .code closed "y\"; // z".toList
  obtain rfl : region = .quoted := congrArg Standing.region (reached.symm.trans inside)
  exact ⟨closed, inside, (masked rfl).1⟩

end SourceSurvey.Source
