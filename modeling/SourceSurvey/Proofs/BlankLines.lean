import SourceSurvey.Proofs.WideScope
import SourceSurvey.Proofs.MaskLines

/-! Blank lines and comment lines in a source text. Lines that are masked to blanks, put between two
lines of a text, change its summary in no way but that what is declared below them is declared as
many lines later, if no word that opens a clause stands last above them with the sign that ends its
clause first below: there the clause is read with the further blanks and not without. -/

namespace SourceSurvey.Source

open Text

/-- The view in which everything below a line is some lines later. -/
def View.shift (line count : Nat) : View :=
  { View.whole with line := fun l => if line < l then l + count else l }

theorem View.ofSummary_whole (s : FileSummary) : View.whole.ofSummary s = s := by
  rw [ofSummary, map_ofType_whole]

theorem View.shift_zero (line : Nat) : View.shift line 0 = .whole := by
  simp only [shift, whole, View.mk.injEq, and_true]
  funext l
  exact ite_self _

theorem View.shift_after (line m n : Nat) :
    (View.shift (line + m) n).after (.shift line m) = .shift line (m + n) := by
  simp only [shift, after, whole, View.mk.injEq]
  refine ⟨funext fun l => ?_, rfl, rfl⟩
  simp only [Function.comp]
  split <;> split <;> omega

variable {language : Language} {path x y u : Text}

/-- One more blank in front of a newline. -/
theorem Widening.summary_eq (g : Widening)
    (hg : ¬Hangs language.clauseWords language.clauseEnds g.front g.behind) :
    (View.shift (g.front.count '\n' + 1) ([g.blank].count '\n')).ofSummary
        ((View.blurred language).ofSummary (.ofMasked language path g.narrow)) =
      (View.blurred language).ofSummary (.ofMasked language path g.wide) := by
  have view :
      (View.shift (g.front.count '\n' + 1) ([g.blank].count '\n')).after (View.blurred language) =
        g.view language :=
    rfl
  rw [← View.ofSummary_after, view]
  simp only [View.ofSummary, FileSummary.ofMasked, types_eq hg, scope?_eq]

theorem not_hangs_concat {words : List Text} {ends : Text} {c : Char} (hc : isBlank c = true)
    (hw : ∀ w ∈ words, w ≠ [] ∧ Solid w) : ¬Widening.Hangs words ends (x ++ [c]) y := by
  rintro ⟨⟨w, hm, hs, -⟩, -⟩
  obtain ⟨hn, hsolid⟩ := hw w hm
  have last : c ∈ w := by
    obtain ⟨r, hr⟩ := hs
    have := congrArg List.getLast? hr
    rw [List.getLast?_append_of_ne_nil _ hn, List.getLast?_concat] at this
    exact List.mem_of_getLast? this
  rw [hsolid c last] at hc
  exact absurd hc (by simp)

/-- Blank text in front of a newline. -/
theorem summary_insert (hu : Blank u)
    (hg : ¬Widening.Hangs language.clauseWords language.clauseEnds x y) :
    (View.shift (x.count '\n' + 1) (u.count '\n')).ofSummary
        ((View.blurred language).ofSummary (.ofMasked language path (x ++ '\n' :: y))) =
      (View.blurred language).ofSummary (.ofMasked language path (x ++ (u ++ '\n' :: y))) := by
  induction u generalizing x with
  | nil =>
    rw [List.count_nil, View.shift_zero, View.ofSummary_whole]
    rfl
  | cons c u ih =>
    obtain ⟨hc, hu⟩ := List.forall_mem_cons.mp hu
    -- only the first blank may stand directly behind a word
    have words : ∀ w ∈ language.clauseWords, w ≠ [] ∧ Solid w := fun w hw =>
      ⟨(Widening.solid_of_mem_clauseWords hw).1.1, (Widening.solid_of_mem_clauseWords hw).2.1⟩
    have step : (View.shift (x.count '\n' + 1) ([c].count '\n')).ofSummary
        ((View.blurred language).ofSummary (.ofMasked language path (x ++ '\n' :: y))) =
          (View.blurred language).ofSummary (.ofMasked language path (x ++ c :: '\n' :: y)) :=
      Widening.summary_eq ⟨x, c, y, hc⟩ hg
    have later := ih (x := x ++ [c]) hu (not_hangs_concat hc words)
    have lines :
        (View.shift ((x ++ [c]).count '\n' + 1) (u.count '\n')).after
          (.shift (x.count '\n' + 1) ([c].count '\n')) =
        .shift (x.count '\n' + 1) ((c :: u).count '\n') := by
      have more : ([c] ++ u).count '\n' = [c].count '\n' + u.count '\n' := List.count_append
      rw [show c :: u = [c] ++ u from rfl, more, List.count_append, Nat.add_right_comm,
        View.shift_after]
    rw [List.append_assoc, List.append_assoc, List.singleton_append, List.singleton_append] at later
    rw [← lines, View.ofSummary_after, step]
    exact later

/-- A newline in front of a text. -/
theorem summary_newline (t : Text) :
    (View.shift 0 1).ofSummary ((View.blurred language).ofSummary (.ofMasked language path t)) =
    (View.blurred language).ofSummary (.ofMasked language path ('\n' :: t)) := by
  have types :
      (Site.ofMasked language t).types.map ((View.shift 0 1).after (View.blurred language)).ofType =
      (Site.ofMasked language ('\n' :: t)).types.map (View.blurred language).ofType :=
    types_lead isLead_newline language t rfl (fun offset => ?_) fun here _ =>
      (attributesAbove_newline _ _).symm
  · rw [← View.ofSummary_after]
    simp only [View.ofSummary, FileSummary.ofMasked, types, scope?_newline]
  · rw [lineOf_newline]
    have first : 0 < (LineTable.ofText t).lineOf offset := by
      rw [lineOf_ofText]
      omega
    show (if 0 < (LineTable.ofText t).lineOf offset then (LineTable.ofText t).lineOf offset + 1
      else (LineTable.ofText t).lineOf offset) = (LineTable.ofText t).lineOf offset + 1
    exact if_pos first

/-- Blank lines between two lines. -/
theorem summary_blankLines {a w b : Text} (ha : Closed a) (hw : Closed w) (hb : Blank w)
    (hg : ¬Widening.Hangs language.clauseWords language.clauseEnds a.dropLast b) :
    (View.shift (a.count '\n') (w.count '\n')).ofSummary
        ((View.blurred language).ofSummary (.ofMasked language path (a ++ b))) =
      (View.blurred language).ofSummary (.ofMasked language path (a ++ (w ++ b))) := by
  rcases hw with rfl | hw
  · rw [List.count_nil, View.shift_zero, View.ofSummary_whole]
    rfl
  obtain ⟨u, rfl⟩ := List.getLast?_eq_some_iff.mp hw
  rcases ha with rfl | ha
  · -- the last newline goes in front of the text, and the other blanks in front of that newline
    have free : ¬Widening.Hangs language.clauseWords language.clauseEnds [] b := by
      rintro ⟨⟨v, hv, hs, -⟩, -⟩
      exact (Widening.solid_of_mem_clauseWords hv).1.1 (List.suffix_nil.mp hs)
    have blanks : (View.shift 1 (u.count '\n')).ofSummary
        ((View.blurred language).ofSummary (.ofMasked language path ('\n' :: b))) =
          (View.blurred language).ofSummary (.ofMasked language path (u ++ '\n' :: b)) :=
            summary_insert hb.left free
    have lines :
        (View.shift 1 (u.count '\n')).after (.shift 0 1) = .shift 0 ((u ++ ['\n']).count '\n') := by
      rw [List.count_append, Nat.add_comm]
      exact View.shift_after 0 1 _
    rw [List.count_nil, ← lines, View.ofSummary_after, List.nil_append, summary_newline,
      List.append_assoc]
    exact blanks
  · obtain ⟨x, rfl⟩ := List.getLast?_eq_some_iff.mp ha
    rw [List.dropLast_concat] at hg
    have blanks : (View.shift (x.count '\n' + 1) (('\n' :: u).count '\n')).ofSummary
        ((View.blurred language).ofSummary (.ofMasked language path (x ++ '\n' :: b))) =
          (View.blurred language).ofSummary
            (.ofMasked language path (x ++ ('\n' :: u ++ '\n' :: b))) :=
      summary_insert (blank_newline.append hb.left) hg
    have more : ('\n' :: u).count '\n' = (u ++ ['\n']).count '\n' := by simp [List.count_append]
    rw [more] at blanks
    simpa [List.count_append] using blanks

/-- Lines that are masked to blanks leave the summary of a text as it is, up to blanks in the texts
of parameters and of their attributes in C#, but that everything below them is declared as many
lines later. -/
theorem summarize_blankLines (language : Language) (path a w b : Text) (ha : Closed a)
    (hca : standingAfter language .code a = .code) (hw : Closed w)
    (hcw : standingAfter language .code w = .code) (hb : Blank (mask language w))
    (hg : ¬Widening.Hangs language.clauseWords language.clauseEnds (mask language a).dropLast
    (mask language b)) :
    (View.blurred language).ofSummary (summarize language path (a ++ w ++ b)) =
      (View.shift (a.count '\n') (w.count '\n')).ofSummary
        ((View.blurred language).ofSummary (summarize language path (a ++ b))) := by
  have closed : ∀ {t : Text}, Closed t → Closed (mask language t) := fun ht => by
    rcases exists_mask_eq language ht with rfl | ⟨x, hx⟩
    · exact .inl rfl
    · exact .inr (by rw [hx, List.getLast?_concat])
  rw [List.append_assoc, summarize_eq, summarize_eq, mask_append ha hca, mask_append ha hca,
    mask_append hw hcw, ← summary_blankLines (closed ha) (closed hw) hb hg, count_mask, count_mask]

/-- A comment between the lines of a header. -/
theorem summarize_blankLines_comment :
    let a := "class A<T> : B\n  where T : C\n".toList
    let w := "\n  // body\n".toList
    let b := "\x7b\n  void M(int x) \x7b \x7d\n\x7d\n".toList
    (Closed a ∧ standingAfter .csharp .code a = .code ∧ Closed w ∧
        standingAfter .csharp .code w = .code ∧
        Blank (mask .csharp w)) ∧
      (summarize .csharp [] (a ++ b)).types.map (·.line) = [1] ∧
      (View.blurred .csharp).ofSummary (summarize .csharp [] (a ++ w ++ b)) =
        (View.shift 2 2).ofSummary
          ((View.blurred .csharp).ofSummary (summarize .csharp [] (a ++ b))) := by
  intro a w b
  have lines : Closed a ∧ standingAfter .csharp .code a = .code ∧ Closed w ∧
      standingAfter .csharp .code w = .code ∧
      Blank (mask .csharp w) := by decide +kernel
  have apart : ¬Widening.Hangs (Language.clauseWords .csharp) (Language.clauseEnds .csharp)
      (mask .csharp a).dropLast
      (mask .csharp b) := by decide +kernel
  obtain ⟨ha, hca, hw, hcw, hb⟩ := lines
  exact ⟨⟨ha, hca, hw, hcw, hb⟩, by decide +kernel,
    summarize_blankLines .csharp [] a w b ha hca hw hcw hb apart⟩

/-- A base named like the word of a clause is lost where a blank line follows it. -/
theorem summarize_blankLines_where :
    let a := "class A : B, where\n".toList
    let w := "\n".toList
    let b := "\x7b \x7d".toList
    (Closed a ∧ standingAfter .csharp .code a = .code ∧ Closed w ∧
        standingAfter .csharp .code w = .code ∧
        Blank (mask .csharp w)) ∧
      (summarize .csharp [] (a ++ b)).types.map (·.baseTypes) = [[['B'], "where".toList]] ∧
      (summarize .csharp [] (a ++ w ++ b)).types.map (·.baseTypes) = [[['B']]] ∧
      (View.blurred .csharp).ofSummary (summarize .csharp [] (a ++ w ++ b)) ≠
        (View.shift (a.count '\n') (w.count '\n')).ofSummary
          ((View.blurred .csharp).ofSummary (summarize .csharp [] (a ++ b))) := by
  decide +kernel

end SourceSurvey.Source
