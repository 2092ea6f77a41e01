import SourceSurvey.Proofs.Method

/-! Blanks in front of a clause. A clause is a part of at least one character that is none of some
ends, and what follows it can only come to an end in front of one of the ends. Blanks before such a
clause are read as far as they go where the clause begins behind them; where an end stands behind
them the last blank is the clause. -/

namespace SourceSurvey.Pattern

open Text Source

variable {σ : Type} {E : Text} {N F : Next σ} {here : Cursor} {a b u v w rest : Text}
  {c d : Char} {e : Ending σ}

/-- What comes to an end only in front of one of some characters, in particular directly in front of
it. -/
def Closes (E : Text) (N : Next σ) : Prop :=
  ∀ here, (N here).isSome = true → ∃ u c rest, here.rest = u ++ c :: rest ∧
    (∀ d ∈ u, d ∉ E) ∧ c ∈ E ∧
    (N (here.beyond u (c :: rest))).isSome = true

/-- A part of at least one character outside of `E`, with `N` behind it. -/
def Spans (E : Text) (N F : Next σ) : Prop :=
  ∀ here, (F here).isSome = true ↔ ∃ u rest, u ≠ [] ∧ (∀ d ∈ u, d ∉ E) ∧ here.rest = u ++ rest ∧
    (N (here.beyond u rest)).isSome = true

theorem spans_lazyPlus (E : Text) (N : Next σ) : Spans E N ((lazyPlus (noneOf E)).run · N) := by
  intro here
  rw [isSome_run_iff]
  constructor
  · rintro ⟨there, e, e', hl, hn⟩
    obtain ⟨u, hu, hw, hr, rfl⟩ := leads_lazyPlus_one hl
    refine ⟨u, there.rest, hu, fun d hd => by simpa using hw d hd, hr, ?_⟩
    rwa [← hl.eq_beyond hr]
  · rintro ⟨u, rest, hu, hw, hr, hn⟩
    obtain ⟨e, he⟩ := Option.isSome_iff_exists.mp hn
    exact ⟨_, e, e, .lazyPlus_one (fun d hd => by simpa using hw d hd) hu hr, hn⟩

theorem spans_mark {p : Pattern σ} {name : σ} (h : ∀ N, Spans E N (p.run · N)) (N : Next σ) :
    Spans E N ((mark name p).run · N) := by
  intro here
  have body := h (fun there => (N there).map (.markEnd name there)) here
  simpa only [run, Option.isSome_map] using body

theorem notMem_of_blank (hE : ∀ c ∈ E, isBlank c = false) (hb : Blank b) :
    ∀ d ∈ b, d ∉ E := fun d hd hde => by
  have blank := hb d hd
  rw [hE d hde] at blank
  exact absurd blank (by simp)

/-- A pattern that reads none of some characters. -/
def Avoids (E : Text) (p : Pattern σ) : Prop :=
  ∀ ⦃here e there e'⦄, p.Leads here e there e' → ∃ w, here.rest = w ++ there.rest ∧ ∀ d ∈ w, d ∉ E

section Avoids

variable {p : Pattern σ} {ps : List (Pattern σ)} {accepts : Char → Bool}

theorem avoids_all_nil : Avoids E (all [] : Pattern σ) := by
  intro here e there e' h
  cases h
  exact ⟨[], rfl, fun d hd => absurd hd List.not_mem_nil⟩

theorem Avoids.all_cons (hp : Avoids E p) (hs : Avoids E (all ps)) : Avoids E (all (p :: ps)) := by
  intro here e there e' h
  obtain ⟨mid, m, h, h'⟩ := leads_all_cons.mp h
  obtain ⟨v, hv, hve⟩ := hp h
  obtain ⟨w, hw, hwe⟩ := hs h'
  refine ⟨v ++ w, by rw [hv, hw, List.append_assoc], fun d hd => ?_⟩
  exact (List.mem_append.mp hd).elim (hve d) (hwe d)

theorem avoids_all (h : ∀ p ∈ ps, Avoids E p) : Avoids E (all ps) := by
  induction ps with
  | nil => exact avoids_all_nil
  | cons p ps ih =>
      exact (h p List.mem_cons_self).all_cons (ih fun q hq => h q (List.mem_cons_of_mem p hq))

theorem Avoids.mark {name : σ} (hp : Avoids E p) : Avoids E (mark name p) := by
  intro here e there e' h
  cases h with
  | mark h => exact hp h

theorem avoids_blanks (hE : ∀ c ∈ E, isBlank c = false) : Avoids E (blanks : Pattern σ) := by
  intro here e there e' h
  obtain ⟨w, hw, hr, -⟩ := leads_star_one h
  exact ⟨w, hr, notMem_of_blank hE hw⟩

theorem avoids_someBlanks (hE : ∀ c ∈ E, isBlank c = false) :
    Avoids E (someBlanks : Pattern σ) := by
  intro here e there e' h
  cases h with
  | seq h h' =>
    obtain ⟨c, hc, hr, rfl⟩ := leads_one h
    obtain ⟨w, hw, hr', -⟩ := leads_star_one h'
    refine ⟨c :: w, by rw [hr, hr']; rfl, notMem_of_blank hE fun d hd => ?_⟩
    rcases List.mem_cons.mp hd with rfl | hd
    · exact hc
    · exact hw d hd

theorem avoids_literal (ht : ∀ d ∈ u, d ∉ E) : Avoids E (literal u : Pattern σ) := by
  intro here e there e' h
  exact ⟨u, (leads_literal h).1, ht⟩

theorem avoids_sign (hc : c ∉ E) : Avoids E (sign c : Pattern σ) := by
  intro here e there e' h
  exact ⟨[c], (leads_sign h).1, fun d hd => by rwa [List.mem_singleton.mp hd]⟩

theorem avoids_lazyPlus : Avoids E (lazyPlus (noneOf E) : Pattern σ) := by
  intro here e there e' h
  obtain ⟨w, -, hw, hr, -⟩ := leads_lazyPlus_one h
  exact ⟨w, hr, fun d hd => by simpa using hw d hd⟩

theorem avoids_one (h : ∀ d, accepts d = true → d ∉ E) : Avoids E (one accepts : Pattern σ) := by
  intro here e there e' hl
  obtain ⟨c, hc, hr, -⟩ := leads_one hl
  exact ⟨[c], hr, fun d hd => by rw [List.mem_singleton.mp hd]; exact h c hc⟩

theorem Avoids.seq {q : Pattern σ} (hp : Avoids E p) (hq : Avoids E q) : Avoids E (seq p q) :=
  (Avoids.all_cons hp hq : Avoids E (all [p, q]))

theorem Avoids.alt {q : Pattern σ} (hp : Avoids E p) (hq : Avoids E q) : Avoids E (alt p q) := by
  intro here e there e' h
  cases h with
  | left h => exact hp h
  | right h => exact hq h

theorem Avoids.star (hp : Avoids E p) : Avoids E (star p) := by
  intro here e there e' h
  generalize hs : Pattern.star p = s at h
  induction h with
  | starDone => exact ⟨[], rfl, fun d hd => absurd hd List.not_mem_nil⟩
  | starRound h _ _ _ ih =>
    cases hs
    obtain ⟨v, hv, hve⟩ := hp h
    obtain ⟨w, hw, hwe⟩ := ih rfl
    exact ⟨v ++ w, by rw [hv, hw, List.append_assoc], fun d hd =>
      (List.mem_append.mp hd).elim (hve d) (hwe d)⟩
  | _ => cases hs

theorem Avoids.lazyStar (hp : Avoids E p) : Avoids E (lazyStar p) := by
  intro here e there e' h
  generalize hs : Pattern.lazyStar p = s at h
  induction h with
  | lazyDone => exact ⟨[], rfl, fun d hd => absurd hd List.not_mem_nil⟩
  | lazyRound h _ _ _ ih =>
    cases hs
    obtain ⟨v, hv, hve⟩ := hp h
    obtain ⟨w, hw, hwe⟩ := ih rfl
    exact ⟨v ++ w, by rw [hv, hw, List.append_assoc], fun d hd =>
      (List.mem_append.mp hd).elim (hve d) (hwe d)⟩
  | _ => cases hs

theorem avoids_wordEdge : Avoids E (wordEdge : Pattern σ) := by
  intro here e there e' h
  cases h
  exact ⟨[], rfl, fun d hd => absurd hd List.not_mem_nil⟩

theorem avoids_oneOf {words : List Text} (h : ∀ w ∈ words, ∀ d ∈ w, d ∉ E) :
    Avoids E (oneOf words : Pattern σ) := by
  intro here e there e' hl
  obtain ⟨w, hw, hr, -⟩ := leads_oneOf hl
  exact ⟨w, hr, h w hw⟩

theorem avoids_lazyPlus_noneOf {signs : Text} (h : ∀ d ∈ E, d ∈ signs) :
    Avoids E (lazyPlus (noneOf signs) : Pattern σ) := by
  have other : ∀ d, (!signs.contains d) = true → d ∉ E := fun d hd hm => by simp [h d hm] at hd
  exact (avoids_one other).seq (avoids_one other).lazyStar

/-- A part that may be left out does not matter for where what follows comes to an end. -/
theorem Closes.skip (h : Closes E N) (hp : Avoids E p)
    (hskip : ∀ here, (N here).isSome = true → (p.run here N).isSome = true) :
    Closes E (p.run · N) := by
  intro here hh
  obtain ⟨there, e, e', hl, hn⟩ := isSome_run_iff.mp hh
  obtain ⟨w, hw, hwe⟩ := hp hl
  obtain ⟨u, c, rest, hr, hu, hc, hn⟩ := h there hn
  refine ⟨w ++ u, c, rest, by rw [hw, hr, List.append_assoc], fun d hd => ?_, hc, hskip _ ?_⟩
  · exact (List.mem_append.mp hd).elim (hwe d) (hu d)
  · rwa [hl.eq_beyond hw, Cursor.beyond_beyond] at hn

theorem Avoids.optional (hp : Avoids E p) : Avoids E (optional p) := by
  intro here e there e' h
  cases h with
  | left h => exact hp h
  | right h =>
    cases h
    exact ⟨[], rfl, fun d hd => absurd hd List.not_mem_nil⟩

theorem Closes.optional (h : Closes E N) (hp : Avoids E p) : Closes E ((optional p).run · N) :=
  h.skip hp.optional fun here hh => by simp [run_optional, hh]

theorem Closes.blanks (h : Closes E N) (hE : ∀ c ∈ E, isBlank c = false) :
    Closes E (blanks.run · N) :=
  h.skip (avoids_blanks hE) fun here hh => by
    rw [Pattern.blanks, run, rounds_eq]
    simp [hh]

theorem closes_of_head (h : ∀ here, (N here).isSome = true → ∃ c ∈ here.rest.head?, c ∈ E) :
    Closes E N := by
  intro here hh
  obtain ⟨c, hc, hce⟩ := h here hh
  obtain ⟨rest, hr⟩ : ∃ rest, here.rest = c :: rest := by
    cases hr : here.rest with
    | nil => simp [hr] at hc
    | cons d rest => exact ⟨rest, by rw [hr] at hc; rw [Option.mem_some_iff.mp hc]⟩
  exact ⟨[], c, rest, hr, fun d hd => absurd hd List.not_mem_nil,
    hce, by rwa [← hr, Cursor.beyond_nil]⟩

end Avoids

/-! ### Blanks that are given back -/

theorem run_blanks_stop (h : here.rest.head?.any isBlank = false) : blanks.run here F = F here := by
  have none : (one isBlank : Pattern σ).Fails here := fails_one fun c hc => by
    rw [hc] at h
    simpa using h
  rw [blanks, run, rounds_eq, none, Option.none_or]

theorem run_blanks_cons (hr : here.rest = c :: rest) (hc : isBlank c = true) :
    blanks.run here F = (blanks.run (here.past c rest) F).or (F here) :=
  run_star_one_cons hr hc

theorem run_someBlanks_cons (hr : here.rest = c :: rest) (hc : isBlank c = true) :
    someBlanks.run here F = blanks.run (here.past c rest) F := by
  have first : someBlanks.run here F = (one isBlank).run here (blanks.run · F) := rfl
  rw [first, run_one_cons hr, if_pos hc]

theorem run_someBlanks_stop (h : here.rest.head?.any isBlank = false) :
    someBlanks.run here F = none := by
  have none : (one isBlank : Pattern σ).Fails here := fails_one fun c hc => by
    rw [hc] at h
    simpa using h
  exact none _

/-- Blanks are read up to a place from which what follows comes to an end if it does from any place
before it, and behind which it does not. -/
theorem run_blanks_over (hb : Blank b) (hr : here.rest = b ++ rest)
    (hback : ∀ u v, u ++ v = b → (F (here.beyond u (v ++ rest))).isSome = true →
    (F (here.beyond b rest)).isSome = true)
    (hlast : blanks.run (here.beyond b rest) F = F (here.beyond b rest)) :
    blanks.run here F = F (here.beyond b rest) := by
  induction b generalizing here with
  | nil =>
    rw [List.nil_append] at hr
    subst hr
    exact hlast
  | cons c b ih =>
    have hr : here.rest = c :: (b ++ rest) := hr
    have same : (here.beyond [c] (b ++ rest)).beyond b rest = here.beyond (c :: b) rest :=
      Cursor.beyond_beyond ..
    have later :=
      @ih (here.beyond [c] (b ++ rest)) (fun d hd => hb d (List.mem_cons_of_mem c hd)) rfl
      (fun u v huv h => by
        rw [same]
        rw [Cursor.beyond_beyond] at h
        exact hback (c :: u) v (by rw [List.cons_append, huv]) h)
      (by rwa [same])
    have first : blanks.run here F = (blanks.run (here.beyond [c] (b ++ rest)) F).or (F here) :=
      run_blanks_cons hr (hb c List.mem_cons_self)
    rw [first, later, same]
    cases hf : F here with
    | none => exact Option.or_none
    | some e =>
      have whole : here.beyond [] (c :: b ++ rest) = here := by
        rw [List.cons_append, ← hr, Cursor.beyond_nil]
      obtain ⟨e', he⟩ :=
        Option.isSome_iff_exists.mp (hback [] (c :: b) rfl (by rw [whole, hf]; rfl))
      rw [he, Option.some_or]

section Spans

/-- No clause begins in front of an end. -/
theorem Spans.eq_none (hF : Spans E N F) (hr : here.rest = c :: rest) (hc : c ∈ E) :
    F here = none := by
  rw [← Option.not_isSome_iff_eq_none, hF]
  rintro ⟨u, v, hu, hue, hr', -⟩
  rw [hr] at hr'
  cases u with
  | nil => exact hu rfl
  | cons d u => exact hue d List.mem_cons_self ((List.cons.inj hr').1 ▸ hc)

variable (hE : ∀ c ∈ E, isBlank c = false) (hN : Closes E N) (hF : Spans E N F)

include hN hF in
theorem Spans.exists_end (h : (F here).isSome = true) : ∃ u c rest, (∀ d ∈ u, d ∉ E) ∧ c ∈ E ∧
    here.rest = u ++ c :: rest ∧ (N (here.beyond u (c :: rest))).isSome = true := by
  obtain ⟨u, rest, -, hue, hr, hn⟩ := (hF here).mp h
  obtain ⟨v, c, rest, rfl, hv, hc, hn⟩ := hN _ hn
  refine ⟨u ++ v, c, rest, fun d hd => ?_, hc, by rw [hr, List.append_assoc], ?_⟩
  · exact (List.mem_append.mp hd).elim (hue d) (hv d)
  · rwa [Cursor.beyond_beyond] at hn

include hE

include hF in
theorem run_blanks_end (hr : here.rest = c :: rest) (hc : c ∈ E) : blanks.run here F = none := by
  rw [run_blanks_stop (by simpa [hr] using hE c hc), hF.eq_none hr hc]

include hN hF

/-- All blanks are read where the clause begins behind them. -/
theorem run_blanks_full (hb : Blank b) (hr : here.rest = b ++ rest)
    (hs : rest.head?.any isBlank = false)
    (hc : ∀ c ∈ rest.head?, c ∉ E) : blanks.run here F = F (here.beyond b rest) := by
  refine run_blanks_over hb hr (fun u v huv h => ?_) (run_blanks_stop hs)
  obtain ⟨w, c, r, hw, hce, hr', hn⟩ := hF.exists_end hN h
  have hr' : v ++ rest = w ++ c :: r := hr'
  have hv : ∀ d ∈ v, d ∉ E :=
    fun d hd => notMem_of_blank hE hb d (by rw [← huv]; exact List.mem_append_right u hd)
  rcases List.append_eq_append_iff.mp hr' with ⟨x, rfl, rfl⟩ | ⟨x, rfl, hx⟩
  · refine (hF _).mpr ⟨x, c :: r, ?_, fun d hd => hw d (List.mem_append_right v hd), rfl, ?_⟩
    · rintro rfl
      exact hc c rfl hce
    · rw [Cursor.beyond_beyond] at hn ⊢
      rwa [← huv, List.append_assoc]
  · -- the end would be among the blanks, or directly behind them
    cases x with
    | nil =>
      rw [List.nil_append] at hx
      exact absurd hce (hc c (by rw [← hx]; rfl))
    | cons d x => exact absurd hce (hv c (by rw [(List.cons.inj hx).1]; simp))

/-- The last blank is the clause where an end stands behind it. -/
theorem run_blanks_last (ha : Blank a) (hd : isBlank d = true) (hc : c ∈ E)
    (hr : here.rest = a ++ d :: c :: rest) :
    blanks.run here F = F (here.beyond a (d :: c :: rest)) := by
  have hd' : d ∉ E :=
    notMem_of_blank hE (b := [d]) (fun f hf => by rwa [List.mem_singleton.mp hf]) d (by simp)
  refine run_blanks_over ha hr (fun u v huv h => ?_) ?_
  · obtain ⟨w, c', r, hw, hce, hr', hn⟩ := hF.exists_end hN h
    have hr' : (v ++ [d]) ++ c :: rest = w ++ c' :: r := by
      rw [List.append_assoc]
      exact hr'
    have hv : ∀ f ∈ v ++ [d], f ∉ E := fun f hf => by
      rcases List.mem_append.mp hf with hf | hf
      · exact notMem_of_blank hE ha f (by rw [← huv]; exact List.mem_append_right u hf)
      · rwa [List.mem_singleton.mp hf]
    obtain ⟨rfl, rfl, rfl⟩ := append_end_inj hv hw hc hce hr'
    refine (hF _).mpr
      ⟨[d], c :: rest, by simp, fun f hf => by rwa [List.mem_singleton.mp hf], rfl, ?_⟩
    rw [Cursor.beyond_beyond] at hn ⊢
    rwa [← huv, List.append_assoc]
  · have stop : blanks.run ((here.beyond a (d :: c :: rest)).past d (c :: rest)) F = none :=
      run_blanks_end hE hF rfl hc
    have first : blanks.run (here.beyond a (d :: c :: rest)) F = _ := run_blanks_cons rfl hd
    rw [first, stop, Option.none_or]

/-- Where there must be a blank, all of them are read, too. -/
theorem run_someBlanks_full (hb : Blank b) (hn : b ≠ []) (hr : here.rest = b ++ rest)
    (hs : rest.head?.any isBlank = false) (hc : ∀ c ∈ rest.head?, c ∉ E) :
    someBlanks.run here F = F (here.beyond b rest) := by
  obtain ⟨c, b, rfl⟩ := List.exists_cons_of_ne_nil hn
  have later : blanks.run (here.past c (b ++ rest)) F = _ :=
    run_blanks_full hE hN hF (fun d hd => hb d (List.mem_cons_of_mem c hd)) rfl hs hc
  rw [Cursor.past_eq_beyond, Cursor.beyond_beyond] at later
  exact (run_someBlanks_cons hr (hb c List.mem_cons_self)).trans later

/-- The last blank is the clause where there is another one. -/
theorem run_someBlanks_last (ha : Blank a) (hn : a ≠ []) (hd : isBlank d = true) (hc : c ∈ E)
    (hr : here.rest = a ++ d :: c :: rest) :
    someBlanks.run here F = F (here.beyond a (d :: c :: rest)) := by
  obtain ⟨f, a, rfl⟩ := List.exists_cons_of_ne_nil hn
  have later : blanks.run (here.past f (a ++ d :: c :: rest)) F = _ :=
    run_blanks_last hE hN hF (fun x hx => ha x (List.mem_cons_of_mem f hx)) hd hc rfl
  rw [Cursor.past_eq_beyond, Cursor.beyond_beyond] at later
  exact (run_someBlanks_cons hr (ha f List.mem_cons_self)).trans later

omit hN in
/-- A single blank is not both in front of the clause and the clause. -/
theorem run_someBlanks_end (hd : isBlank d = true) (hc : c ∈ E) (hr : here.rest = d :: c :: rest) :
    someBlanks.run here F = none := by
  have later : blanks.run (here.past d (c :: rest)) F = none := run_blanks_end hE hF rfl hc
  exact (run_someBlanks_cons hr hd).trans later

end Spans

end SourceSurvey.Pattern
