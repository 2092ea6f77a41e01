import SourceSurvey.Proofs.Member

/-! Texts that patterns read. Whatever a reading makes of what follows it, it reads some text, and
the texts that a pattern reads are put together of those that its parts read. A run sees what
follows it only from the places that its readings reach. -/

namespace SourceSurvey

open Text

namespace Pattern

variable {σ : Type} {p q : Pattern σ} {ps : List (Pattern σ)} {N N' : Next σ}
  {here : Cursor} {w : Text}

/-- Some reading of a pattern leads from the one place to the other. -/
def Reaches (p : Pattern σ) (here there : Cursor) : Prop := ∃ e e', p.Leads here e there e'

/-- A text that some reading of a pattern reads. -/
def Reads (p : Pattern σ) (w : Text) : Prop :=
  ∃ here there, p.Reaches here there ∧ here.rest = w ++ there.rest

theorem Reaches.exists_reads {here there : Cursor} (h : p.Reaches here there) :
    ∃ w, p.Reads w ∧ here.rest = w ++ there.rest := by
  obtain ⟨e, e', hl⟩ := h
  obtain ⟨w, hw, -⟩ := hl.exists_beyond
  exact ⟨w, ⟨here, there, ⟨e, e', hl⟩, hw⟩, hw⟩

/-- A reading may be made with any ending behind it. -/
theorem Leads.exists_ending {here there : Cursor} {e e' : Ending σ} (h : p.Leads here e there e')
    (f' : Ending σ) :
    ∃ f, p.Leads here f there f' := by
  induction h generalizing f' with
  | nothing => exact ⟨f', .nothing⟩
  | one ha hr => exact ⟨f', .one ha hr⟩
  | seq _ _ ih ih' =>
    obtain ⟨m, hm⟩ := ih' f'
    obtain ⟨f, hf⟩ := ih m
    exact ⟨f, .seq hf hm⟩
  | left _ ih => exact (ih f').imp fun _ => .left
  | right _ ih => exact (ih f').imp fun _ => .right
  | starDone => exact ⟨f', .starDone⟩
  | starRound _ hl _ ih ih' =>
    obtain ⟨m, hm⟩ := ih' f'
    obtain ⟨f, hf⟩ := ih m
    exact ⟨f, .starRound hf hl hm⟩
  | lazyDone => exact ⟨f', .lazyDone⟩
  | lazyRound _ hl _ ih ih' =>
    obtain ⟨m, hm⟩ := ih' f'
    obtain ⟨f, hf⟩ := ih m
    exact ⟨f, .lazyRound hf hl hm⟩
  | mark _ ih =>
    obtain ⟨f, hf⟩ := ih (.markEnd _ _ f')
    exact ⟨_, .mark hf⟩
  | wordEdge h => exact ⟨f', .wordEdge h⟩
  | lineStart h => exact ⟨f', .lineStart h⟩

/-- A run is told by what follows the places that some reading reaches. -/
theorem run_congr_of_reaches {here : Cursor}
    (h : ∀ there, p.Reaches here there → N there = N' there) : p.run here N = p.run here N' := by
  induction p generalizing here N N' with
  | nothing => exact h here ⟨.plain here, _, .nothing⟩
  | one accepts =>
    cases hr : here.rest with
    | nil => rw [run_one_nil hr, run_one_nil hr]
    | cons c rest =>
      rw [run_one_cons hr, run_one_cons hr]
      split
      · exact h _ ⟨.plain here, _, .one ‹_› hr⟩
      · rfl
  | seq p q ihp ihq =>
    refine ihp ?_
    rintro mid ⟨_, _, hp⟩
    refine ihq ?_
    rintro there ⟨m, e', hq⟩
    obtain ⟨e, hp⟩ := hp.exists_ending m
    exact h there ⟨e, e', .seq hp hq⟩
  | alt p q ihp ihq =>
    have left : ∀ there, p.Reaches here there → N there = N' there := by
      rintro there ⟨e, e', hl⟩
      exact h there ⟨e, e', .left hl⟩
    have right : ∀ there, q.Reaches here there → N there = N' there := by
      rintro there ⟨e, e', hl⟩
      exact h there ⟨e, e', .right hl⟩
    rw [Pattern.run, Pattern.run, ihp left, ihq right]
  | star p ih =>
    simp only [Pattern.run]
    induction hn : here.rest.length using Nat.strongRecOn generalizing here with
    | ind n ihn =>
      subst hn
      rw [rounds_eq, rounds_eq, h here ⟨.plain here, _, .starDone⟩]
      congr 1
      refine ih ?_
      rintro mid ⟨_, _, hp⟩
      split
      · refine ihn _ ‹_› ?_ rfl
        rintro there ⟨m, e', hs⟩
        obtain ⟨e, hp⟩ := hp.exists_ending m
        exact h there ⟨e, e', .starRound hp ‹_› hs⟩
      · rfl
  | lazyStar p ih =>
    simp only [Pattern.run]
    induction hn : here.rest.length using Nat.strongRecOn generalizing here with
    | ind n ihn =>
      subst hn
      rw [lazyRounds_eq, lazyRounds_eq, h here ⟨.plain here, _, .lazyDone⟩]
      congr 1
      refine ih ?_
      rintro mid ⟨_, _, hp⟩
      split
      · refine ihn _ ‹_› ?_ rfl
        rintro there ⟨m, e', hs⟩
        obtain ⟨e, hp⟩ := hp.exists_ending m
        exact h there ⟨e, e', .lazyRound hp ‹_› hs⟩
      · rfl
  | mark name p ih =>
    rw [Pattern.run, Pattern.run]
    refine congrArg (Option.map _) (ih ?_)
    rintro there ⟨_, e', hl⟩
    obtain ⟨e, hl⟩ := hl.exists_ending (.markEnd name there e')
    rw [h there ⟨_, e', .mark hl⟩]
  | wordEdge =>
    simp only [Pattern.run]
    split
    · exact h here ⟨.plain here, _, .wordEdge ‹_›⟩
    · rfl
  | lineStart =>
    simp only [Pattern.run]
    split
    · exact h here ⟨.plain here, _, .lineStart ‹_›⟩
    · rfl

theorem Leads.last_eq {there : Cursor} {e e' : Ending σ} (h : p.Leads here e there e') :
    e.last = e'.last := by
  induction h with
  | nothing | one | starDone | lazyDone | wordEdge | lineStart => rfl
  | seq _ _ ih ih' | starRound _ _ _ ih ih' | lazyRound _ _ _ ih ih' => exact ih.trans ih'
  | left _ ih | right _ ih | mark _ ih => exact ih

/-- A match is a reading from the place where it starts to the one where it ends. -/
theorem reaches_of_matchAt {m : Match σ} (hm : p.matchAt here = some m) :
    p.Reaches here m.ending.last := by
  obtain ⟨e, he, rfl⟩ := Option.map_eq_some_iff.mp hm
  obtain ⟨there, e', hn, hl⟩ := exists_leads_of_run he
  have last : e.last = there := by rw [hl.last_eq, ← Option.some.inj hn, Ending.plain]
  rw [last]
  exact ⟨e, e', hl⟩

/-! ### Texts read by parts -/

theorem Leads.exists_reads {there : Cursor} {e e' : Ending σ} (h : p.Leads here e there e') :
    ∃ w, p.Reads w ∧ here.rest = w ++ there.rest :=
  Reaches.exists_reads ⟨e, e', h⟩

/-- What is said of the text of every reading is said of every text that is read. -/
@[elab_as_elim]
theorem Reads.elim {Q : Text → Prop} (h : p.Reads w)
    (hq : ∀ ⦃here e there e'⦄, p.Leads here e there e' → ∃ v, Q v ∧ here.rest = v ++ there.rest) :
    Q w := by
  obtain ⟨here, there, ⟨e, e', hl⟩, hr⟩ := h
  obtain ⟨v, hv, hr'⟩ := hq hl
  rwa [List.append_cancel_right (hr.symm.trans hr')]

theorem Reads.seq (h : (seq p q).Reads w) : ∃ u v, w = u ++ v ∧ p.Reads u ∧ q.Reads v :=
  h.elim fun _ _ _ _ hl => by
    cases hl with
    | seq hp hq =>
      obtain ⟨u, hu, hr⟩ := hp.exists_reads
      obtain ⟨v, hv, hr'⟩ := hq.exists_reads
      exact ⟨u ++ v, ⟨u, v, rfl, hu, hv⟩, by rw [hr, hr', List.append_assoc]⟩

theorem Reads.all_cons (h : (all (p :: ps)).Reads w) :
    ∃ u v, w = u ++ v ∧ p.Reads u ∧ (all ps).Reads v :=
  h.elim fun _ _ _ _ hl => by
    obtain ⟨mid, m, hp, hps⟩ := leads_all_cons.mp hl
    obtain ⟨u, hu, hr⟩ := hp.exists_reads
    obtain ⟨v, hv, hr'⟩ := hps.exists_reads
    exact ⟨u ++ v, ⟨u, v, rfl, hu, hv⟩, by rw [hr, hr', List.append_assoc]⟩

theorem leads_all_append {qs : List (Pattern σ)} {there : Cursor} {e e' : Ending σ}
    (h : (all (ps ++ qs)).Leads here e there e') :
    ∃ mid m, (all ps).Leads here e mid m ∧ (all qs).Leads mid m there e' := by
  induction ps generalizing here e with
  | nil => exact ⟨here, e, .nothing, h⟩
  | cons p ps ih =>
    obtain ⟨next, n, hp, hrest⟩ := leads_all_cons.mp h
    obtain ⟨mid, m, hps, hqs⟩ := ih hrest
    exact ⟨mid, m, leads_all_cons.mpr ⟨next, n, hp, hps⟩, hqs⟩

theorem Reads.all_append {qs : List (Pattern σ)} (h : (all (ps ++ qs)).Reads w) :
    ∃ u v, w = u ++ v ∧ (all ps).Reads u ∧ (all qs).Reads v :=
  h.elim fun _ _ _ _ hl => by
    obtain ⟨mid, m, hps, hqs⟩ := leads_all_append hl
    obtain ⟨u, hu, hr⟩ := hps.exists_reads
    obtain ⟨v, hv, hr'⟩ := hqs.exists_reads
    exact ⟨u ++ v, ⟨u, v, rfl, hu, hv⟩, by rw [hr, hr', List.append_assoc]⟩

theorem Reads.optional (h : (optional p).Reads w) : w = [] ∨ p.Reads w :=
  h.elim fun _ _ _ _ hl => by
    cases hl with
    | left hl =>
      obtain ⟨w, hw, hr⟩ := hl.exists_reads
      exact ⟨w, .inr hw, hr⟩
    | right hl =>
      cases hl
      exact ⟨[], .inl rfl, rfl⟩

theorem Reads.mark {name : σ} (h : (mark name p).Reads w) : p.Reads w :=
  h.elim fun _ _ _ _ hl => by
    cases hl with
    | mark hl => exact hl.exists_reads

theorem Reads.any (h : (any ps).Reads w) : ∃ p ∈ ps, p.Reads w :=
  h.elim fun _ _ _ _ hl => by
    obtain ⟨p, hp, hl⟩ := leads_any.mp hl
    obtain ⟨w, hw, hr⟩ := hl.exists_reads
    exact ⟨w, ⟨p, hp, hw⟩, hr⟩

theorem Reads.sign {c : Char} (h : (sign c : Pattern σ).Reads w) : w = [c] :=
  h.elim fun _ _ _ _ hl => ⟨[c], rfl, (leads_sign hl).1⟩

theorem Reads.literal {t : Text} (h : (literal t : Pattern σ).Reads w) : w = t :=
  h.elim fun _ _ _ _ hl => ⟨t, rfl, (leads_literal hl).1⟩

theorem Reads.star_one {accepts : Char → Bool} (h : (star (one accepts) : Pattern σ).Reads w) :
    ∀ c ∈ w, accepts c = true :=
  h.elim fun _ _ _ _ hl => by
    obtain ⟨w, hw, hr, -⟩ := leads_star_one hl
    exact ⟨w, hw, hr⟩

theorem Reads.blanks (h : (blanks : Pattern σ).Reads w) : Blank w := h.star_one

theorem Reads.someBlanks (h : (someBlanks : Pattern σ).Reads w) : Blank w ∧ w ≠ [] :=
  h.elim fun _ _ _ _ hl => by
    cases hl with
    | seq hone hmore =>
      obtain ⟨c, hc, hr, -⟩ := leads_one hone
      obtain ⟨w, hw, hr', -⟩ := leads_star_one hmore
      exact ⟨c :: w,
        ⟨List.forall_mem_cons.mpr ⟨hc, hw⟩, List.cons_ne_nil c w⟩, by rw [hr, hr']; rfl⟩

end Pattern

end SourceSurvey
