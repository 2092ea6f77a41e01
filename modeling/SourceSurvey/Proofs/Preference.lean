import SourceSurvey.Proofs.Reading

/-! The first choice of a run. A pattern prefers a place when a run finds the ending of what follows
there, whatever the other places hold; it fails where it has no reading. A star prefers the place
where its last round ends and no other begins, and an alternative the choice of its first part that
does not fail. A lazy star has no preferred place of its own: it takes the nearest one from which
what follows comes to an end. -/

namespace SourceSurvey.Pattern

open Text

variable {σ : Type} {p q : Pattern σ} {ps : List (Pattern σ)} {here mid there : Cursor}
  {next : Next σ} {e : Ending σ}

/-- Where there is an ending of what follows, the run finds that one. -/
def Prefers (p : Pattern σ) (here there : Cursor) : Prop :=
  ∀ (next : Next σ) (e : Ending σ), next there = some e → p.run here next = some e

/-- No run comes to an ending. -/
def Fails (p : Pattern σ) (here : Cursor) : Prop := ∀ next : Next σ, p.run here next = none

/-- A run fails where there is no reading to an ending. -/
theorem run_eq_none (h : ∀ there e e', p.Leads here e there e' → next there = none) :
    p.run here next = none := by
  rw [← Option.not_isSome_iff_eq_none, isSome_run_iff]
  rintro ⟨there, e, e', hl, hn⟩
  rw [h there e e' hl] at hn
  exact absurd hn (by simp)

theorem fails_of_not_leads (h : ∀ there e e', ¬p.Leads here e there e') : p.Fails here :=
  fun _ => run_eq_none fun there e e' hl => absurd hl (h there e e')

/-! ### Composition -/

theorem run_all_cons (p : Pattern σ) (ps : List (Pattern σ)) (here : Cursor) (next : Next σ) :
    (all (p :: ps)).run here next = p.run here fun there => (all ps).run there next := by
  cases ps <;> rfl

theorem run_any_cons (p : Pattern σ) (ps : List (Pattern σ)) (here : Cursor) (next : Next σ) :
    (any (p :: ps)).run here next = (p.run here next).or ((any ps).run here next) := by
  cases ps with
  | nil =>
    have : (any ([] : List (Pattern σ))).run here next = none := by
      simp only [any, run]
      split <;> rfl
    rw [this, Option.or_none, any]
  | cons => rfl

theorem run_optional (p : Pattern σ) (here : Cursor) (next : Next σ) :
    (optional p).run here next = (p.run here next).or (next here) := rfl

theorem prefers_nothing : (nothing : Pattern σ).Prefers here here := fun _ _ h => h

theorem Prefers.run_seq (h : p.Prefers here mid) (hq : q.run mid next = some e) :
    (seq p q).run here next = some e :=
  h _ _ hq

theorem Prefers.seq (h : p.Prefers here mid) (hq : q.Prefers mid there) :
    (seq p q).Prefers here there :=
  fun _ _ he => h.run_seq (hq _ _ he)

/-- The first of several patterns in a row is over at the place that it prefers. -/
theorem Prefers.run_all (h : p.Prefers here mid) (hs : (all ps).run mid next = some e) :
    (all (p :: ps)).run here next = some e := by
  rw [run_all_cons]
  exact h _ _ hs

theorem Prefers.all_cons (h : p.Prefers here mid) (hs : (all ps).Prefers mid there) :
    (all (p :: ps)).Prefers here there :=
  fun _ _ he => h.run_all (hs _ _ he)

theorem Prefers.left (h : p.Prefers here there) : (alt p q).Prefers here there := by
  intro next e he
  rw [run, h next e he, Option.some_or]

theorem Prefers.right (hf : p.Fails here) (h : q.Prefers here there) :
    (alt p q).Prefers here there := by
  intro next e he
  rw [run, hf next, Option.none_or, h next e he]

theorem Prefers.optional (h : p.Prefers here there) : (optional p).Prefers here there := h.left

theorem prefers_optional_of_fails (h : p.Fails here) : (optional p).Prefers here here :=
  prefers_nothing.right h

theorem Prefers.any_cons (h : p.Prefers here there) : (any (p :: ps)).Prefers here there := by
  intro next e he
  rw [run_any_cons, h next e he, Option.some_or]

theorem Prefers.any_of_fails (hf : p.Fails here) (h : (any ps).Prefers here there) :
    (any (p :: ps)).Prefers here there := by
  intro next e he
  rw [run_any_cons, hf next, Option.none_or, h next e he]

theorem prefers_star_of_fails (h : p.Fails here) : (star p).Prefers here here := by
  intro next e he
  rw [run, rounds_eq, h, Option.none_or, he]

theorem Prefers.star_round (h : p.Prefers here mid) (hl : mid.rest.length < here.rest.length)
    (hs : (star p).Prefers mid there) : (star p).Prefers here there := by
  intro next e he
  have later := hs next e he
  rw [run] at later
  rw [run, rounds_eq, h _ e (by rw [if_pos hl, later]), Option.some_or]

theorem prefers_wordEdge (h : here.atWordEdge = true) :
    (wordEdge : Pattern σ).Prefers here here := by
  intro next e he
  rw [run, if_pos h, he]

/-! ### Characters -/

variable {accepts : Char → Bool} {c : Char} {t w rest : Text}

theorem run_one_cons (hr : here.rest = c :: rest) :
    (one accepts).run here next = if accepts c then next (here.past c rest) else none := by
  simp only [run, hr]

theorem run_one_nil (hr : here.rest = []) : (one accepts).run here next = none := by
  simp only [run, hr]

theorem run_star_one_cons (hr : here.rest = c :: rest) (ha : accepts c = true) :
    (star (one accepts)).run here next = ((star (one accepts)).run (here.past c rest) next).or
      (next here) := by
  have shorter : (here.past c rest).rest.length < here.rest.length := by simp [hr, Cursor.past]
  rw [run, rounds_eq, run_one_cons hr, if_pos ha, if_pos shorter]
  rfl

theorem run_lazyStar_one_cons (hr : here.rest = c :: rest) (ha : accepts c = true) :
    (lazyStar (one accepts)).run here next = (next here).or
      ((lazyStar (one accepts)).run (here.past c rest) next) := by
  have shorter : (here.past c rest).rest.length < here.rest.length := by simp [hr, Cursor.past]
  rw [run, lazyRounds_eq, run_one_cons hr, if_pos ha, if_pos shorter]
  rfl

theorem run_lazyStar_one_of_not (hr : here.rest = c :: rest) (ha : ¬accepts c = true) :
    (lazyStar (one accepts)).run here next = next here := by
  rw [run, lazyRounds_eq, run_one_cons hr, if_neg ha, Option.or_none]

theorem prefers_one (ha : accepts c = true) (hr : here.rest = c :: rest) :
    (one accepts : Pattern σ).Prefers here (here.beyond [c] rest) := by
  intro next e he
  simp only [run, hr, ha, if_true]
  exact he

theorem fails_one (h : ∀ c ∈ here.rest.head?, accepts c = false) :
    (one accepts : Pattern σ).Fails here := by
  refine fails_of_not_leads fun there e e' hl => ?_
  obtain ⟨c, hc, hr, -⟩ := leads_one hl
  rw [h c (by simp [hr])] at hc
  exact absurd hc (by simp)

theorem prefers_sign (hr : here.rest = c :: rest) :
    (sign c : Pattern σ).Prefers here (here.beyond [c] rest) :=
  prefers_one (by simp) hr

theorem fails_sign (h : here.rest.head? ≠ some c) : (sign c : Pattern σ).Fails here :=
  fails_one fun _ hd => decide_eq_false fun he => h (he ▸ hd)

theorem prefers_literal (hr : here.rest = t ++ rest) :
    (literal t : Pattern σ).Prefers here (here.beyond t rest) := by
  induction t generalizing here with
  | nil =>
    rw [List.nil_append] at hr
    subst hr
    exact prefers_nothing
  | cons c t ih =>
    have later : (literal t : Pattern σ).Prefers (here.beyond [c] (t ++ rest)) _ := ih rfl
    rw [Cursor.beyond_beyond] at later
    exact (prefers_sign hr).all_cons later

theorem fails_literal (h : ¬t <+: here.rest) : (literal t : Pattern σ).Fails here :=
  fails_of_not_leads fun there _ _ hl => h ⟨there.rest, (leads_literal hl).1.symm⟩

/-- Of several words, none the start of another text that goes on here, the one that stands here is
read. -/
theorem prefers_oneOf {words : List Text} (hw : w ∈ words) (hr : here.rest = w ++ rest)
    (hu : ∀ v ∈ words, v <+: here.rest → v = w) :
    (oneOf words : Pattern σ).Prefers here (here.beyond w rest) := by
  rw [oneOf]
  induction words with
  | nil => exact absurd hw List.not_mem_nil
  | cons v words ih =>
    by_cases hv : v <+: here.rest
    · rw [hu v List.mem_cons_self hv]
      exact (prefers_literal hr).any_cons
    · have hm : w ∈ words := (List.mem_cons.mp hw).resolve_left fun he => hv ⟨rest, by rw [hr, he]⟩
      exact (ih hm fun u hm => hu u (List.mem_cons_of_mem v hm)).any_of_fails (fails_literal hv)

/-- A star over characters reads all that it can. -/
theorem prefers_star_one (hw : ∀ c ∈ w, accepts c = true) (hr : here.rest = w ++ rest)
    (hs : ∀ c ∈ rest.head?, accepts c = false) :
    (star (one accepts) : Pattern σ).Prefers here (here.beyond w rest) := by
  induction w generalizing here with
  | nil =>
    rw [List.nil_append] at hr
    subst hr
    exact prefers_star_of_fails (fails_one hs)
  | cons c w ih =>
    have later : (star (one accepts) : Pattern σ).Prefers (here.beyond [c] (w ++ rest)) _ :=
      ih (fun d hd => hw d (List.mem_cons_of_mem c hd)) rfl
    rw [Cursor.beyond_beyond] at later
    exact (prefers_one (hw c List.mem_cons_self) hr).star_round (by simp [hr]) later

theorem prefers_plus_one (hw : ∀ c ∈ w, accepts c = true) (hn : w ≠ []) (hr : here.rest = w ++ rest)
    (hs : ∀ c ∈ rest.head?, accepts c = false) :
    (plus (one accepts) : Pattern σ).Prefers here (here.beyond w rest) := by
  obtain ⟨c, w, rfl⟩ := List.exists_cons_of_ne_nil hn
  have later : (star (one accepts) : Pattern σ).Prefers (here.beyond [c] (w ++ rest)) _ :=
    prefers_star_one (fun d hd => hw d (List.mem_cons_of_mem c hd)) rfl hs
  rw [Cursor.beyond_beyond] at later
  exact (prefers_one (hw c List.mem_cons_self) hr).seq later

/-- A lazy star over characters takes the nearest place from which what follows comes to an end, and
does not go past a place from which it does. -/
theorem exists_run_lazyStar_one (hw : ∀ c ∈ w, accepts c = true) (hr : here.rest = w ++ rest)
    (hn : (next (here.beyond w rest)).isSome = true) :
    ∃ u v, u ++ v = w ∧ (next (here.beyond u (v ++ rest))).isSome = true ∧
      (lazyStar (one accepts)).run here next = next (here.beyond u (v ++ rest)) ∧
      ∀ u' v', u' ++ v' = u → v' ≠ [] → next (here.beyond u' (v' ++ (v ++ rest))) = none := by
  induction w generalizing here with
  | nil =>
    rw [List.nil_append] at hr
    subst hr
    refine ⟨[], [], rfl, hn, ?_, fun u' v' he hv => absurd (List.append_eq_nil_iff.mp he).2 hv⟩
    obtain ⟨e, he⟩ := Option.isSome_iff_exists.mp hn
    rw [Cursor.beyond_nil] at he
    rw [run, lazyRounds_eq, he, List.nil_append, Cursor.beyond_nil, he, Option.some_or]
  | cons c w ih =>
    by_cases hh : (next here).isSome = true
    · obtain ⟨e, he⟩ := Option.isSome_iff_exists.mp hh
      have hz : here.beyond [] (c :: w ++ rest) = here := by rw [← hr, Cursor.beyond_nil]
      refine ⟨[], c :: w, rfl, by rw [hz, hh], ?_, fun u' v' he hv =>
        absurd (List.append_eq_nil_iff.mp he).2 hv⟩
      rw [run, lazyRounds_eq, hz, he, Option.some_or]
    · rw [Bool.not_eq_true, Option.isSome_eq_false_iff, Option.isNone_iff_eq_none] at hh
      have hlater : (next ((here.beyond [c] (w ++ rest)).beyond w rest)).isSome = true := by
        rwa [Cursor.beyond_beyond]
      obtain ⟨u, v, huv, hs, hrun, hshort⟩ :=
        ih (fun d hd => hw d (List.mem_cons_of_mem c hd)) rfl hlater
      rw [Cursor.beyond_beyond] at hs hrun
      refine ⟨c :: u, v, by rw [List.cons_append, huv], hs, ?_, ?_⟩
      · rw [run] at hrun
        rw [run, lazyRounds_eq, hh, Option.none_or]
        simp only [run, hr, List.cons_append, hw c List.mem_cons_self, if_true]
        rw [if_pos (by simp [Cursor.past]), Cursor.past_eq_beyond]
        exact hrun
      · intro u' v' he hv
        cases u' with
        | nil =>
          rw [List.nil_append] at he
          rw [he, List.cons_append, ← List.append_assoc, huv, ← List.cons_append, ← hr,
            Cursor.beyond_nil, hh]
        | cons d u' =>
          rw [List.cons_append] at he
          obtain ⟨rfl, hu⟩ := List.cons.inj he
          have := hshort u' v' hu hv
          rwa [Cursor.beyond_beyond] at this

/-- A lazy star over characters reads no more than it must. -/
theorem run_lazyStar_one (hw : ∀ c ∈ w, accepts c = true) (hr : here.rest = w ++ rest)
    (hn : ∀ u v, u ++ v = w → v ≠ [] → next (here.beyond u (v ++ rest)) = none)
    (he : next (here.beyond w rest) = some e) : (lazyStar (one accepts)).run here
    next = some e := by
  have hsome : (next (here.beyond w rest)).isSome = true := by rw [he, Option.isSome_some]
  obtain ⟨u, v, huv, hs, hrun, -⟩ := exists_run_lazyStar_one hw hr hsome
  by_cases hv : v = []
  · subst hv
    rw [List.append_nil] at huv
    rw [hrun, huv, List.nil_append, he]
  · rw [hn u v huv hv] at hs
    exact absurd hs (by simp)

theorem run_lazyPlus_one (hw : ∀ d ∈ c :: w, accepts d = true) (hr : here.rest = c :: w ++ rest)
    (hn : ∀ u v, u ++ v = w → v ≠ [] → next (here.beyond (c :: u) (v ++ rest)) = none)
    (he : next (here.beyond (c :: w) rest) = some e) :
    (lazyPlus (one accepts)).run here next = some e := by
  refine (prefers_one (hw c List.mem_cons_self) hr).run_seq ?_
  refine run_lazyStar_one (fun d hd => hw d (List.mem_cons_of_mem c hd)) rfl
    (fun u v huv hv => ?_) ?_
  · rw [Cursor.beyond_beyond]
    exact hn u v huv hv
  · rwa [Cursor.beyond_beyond]

/-- A lazy part is read wherever what follows comes to an end behind some of its characters. -/
theorem isSome_run_lazyPlus_one (hw : ∀ d ∈ c :: w, accepts d = true)
    (hr : here.rest = c :: w ++ rest) (hn : (next (here.beyond (c :: w) rest)).isSome = true) :
    ((lazyPlus (one accepts)).run here next).isSome = true := by
  have later : (next ((here.beyond [c] (w ++ rest)).beyond w rest)).isSome = true := by
    rwa [Cursor.beyond_beyond]
  obtain ⟨u, v, -, hs, hrun, -⟩ :=
    exists_run_lazyStar_one (fun d hd => hw d (List.mem_cons_of_mem c hd)) rfl later
  obtain ⟨e, he⟩ := Option.isSome_iff_exists.mp hs
  have first := (prefers_one (hw c List.mem_cons_self) hr).run_seq (hrun.trans he)
  rw [lazyPlus, first, Option.isSome_some]

/-! ### Marks -/

/-- The ending with a part marked that begins and ends at the given places. -/
def Ending.marked (name : σ) (first last : Cursor) (e : Ending σ) : Ending σ :=
  .markBegin name first (.markEnd name last e)

theorem Prefers.run_mark {name : σ} (h : p.Prefers here there) (he : next there = some e) :
    (mark name p).run here next = some (e.marked name here there) := by
  rw [run, h _ _ (by rw [he, Option.map_some]), Option.map_some]
  rfl

theorem Prefers.run_all_mark {name : σ} (h : p.Prefers here mid)
    (hs : (all ps).run mid next = some e) :
    (all (mark name p :: ps)).run here next = some (e.marked name here mid) := by
  rw [run_all_cons]
  exact h.run_mark hs

/-- A marked part that is read lazily is no longer than it must be. -/
theorem run_mark_lazyPlus_one {name : σ} (hw : ∀ d ∈ c :: w, accepts d = true)
    (hr : here.rest = c :: w ++ rest)
    (hn : ∀ u v, u ++ v = w → v ≠ [] → next (here.beyond (c :: u) (v ++ rest)) = none)
    (he : next (here.beyond (c :: w) rest) = some e) :
    (mark name (lazyPlus (one accepts))).run here next =
      some (e.marked name here (here.beyond (c :: w) rest)) := by
  have body :
      (lazyPlus (one accepts)).run here (fun there => (next there).map (.markEnd name there)) =
      some (.markEnd name (here.beyond (c :: w) rest) e) :=
    run_lazyPlus_one hw hr (fun u v huv hv => by rw [hn u v huv hv, Option.map_none])
      (by rw [he, Option.map_some])
  rw [run, body]
  rfl

/-- What follows a match that is over. -/
def stopHere : Next σ := fun there => some (.plain there)

section Parts

variable [DecidableEq σ] {name : σ} {parts : σ → Option Text}

/-- The texts of the marked parts, wherever the match with this ending starts. -/
def Ending.Tells (e : Ending σ) (parts : σ → Option Text) : Prop :=
  ∀ first name, (Match.mk first e).text? name = parts name

theorem Ending.tells_plain : (Ending.plain here : Ending σ).Tells fun _ => none := fun _ _ => rfl

theorem Ending.marks_marked_of_ne {other : σ} {s : Span} (hn : name ≠ other) :
    (e.marked other here there).Marks name s ↔ e.Marks name s := by
  have hb : (name == other) = false := beq_false_of_ne hn
  simp [Ending.Marks, Ending.marked, Ending.markBegin, Ending.markEnd, List.lookup_cons, hb]

/-- The ending of a match that marks nothing tells nothing. -/
theorem Ending.tells_of_marks (h : p.run here stopHere = some e) (hm : p.marks = []) :
    e.Tells fun _ => none := by
  intro first other
  obtain ⟨there, e', he, hl⟩ := exists_leads_of_run h
  have noMark : other ∉ p.marks := by
    rw [hm]
    exact List.not_mem_nil
  obtain ⟨hb, -⟩ := hl.lookup_of_notMem noMark
  rw [← Option.some.inj he] at hb
  rw [Match.text?, Match.span?, hb]
  rfl

/-- Of two parts with one name the outer or earlier one is told. -/
theorem Ending.Tells.marked (h : e.Tells parts) (hr : here.rest = w ++ rest) :
    (e.marked name here (here.beyond w rest)).Tells fun other => if other = name then some w else
      parts other := by
  intro first other
  beta_reduce
  by_cases ho : other = name
  · have hs : (Match.mk first (e.marked name here (here.beyond w rest))).span? other =
        some ⟨here, here.beyond w rest⟩ := by
      simp [Match.span?, Ending.marked, Ending.markBegin, Ending.markEnd, ho]
    rw [Match.text?, hs, Option.map_some, Span.text, Span.stop, Span.start, hr, if_pos ho]
    simp [Cursor.beyond, takeBytes_append]
  · have hb : (other == name) = false := beq_false_of_ne ho
    rw [if_neg ho, ← h first other]
    simp [Match.text?, Match.span?, Ending.marked, Ending.markBegin, Ending.markEnd,
      List.lookup_cons, hb]

end Parts

/-! ### The first match -/

/-- A match at the start of a text is the first one, if the start is not refused. -/
theorem head?_matchesUnless {refuses : Cursor → Bool} {m : Match σ}
    (hm : p.matchAt (Cursor.ofText t) = some m)
    (hr : refuses (Cursor.ofText t) = false) : (p.matchesUnless refuses t).head? = some m := by
  have hp : ∃ later, Cursor.places t = Cursor.ofText t :: later := by
    cases t with
    | nil => exact ⟨[], rfl⟩
    | cons c t => exact ⟨_, rfl⟩
  obtain ⟨later, hp⟩ := hp
  have hf : m.first = Cursor.ofText t := by
    obtain ⟨ending, -, rfl⟩ := Option.map_eq_some_iff.mp hm
    rfl
  rw [matchesUnless, candidates_eq, hp, List.filterMap_cons, hm, select, hf, hr, Match.start, hf]
  simp [Cursor.ofText]

end SourceSurvey.Pattern
