import SourceSurvey.Proofs.Shy
import Mathlib.Data.List.Forall2

/-! A text and the same text with one more blank in front of one of its newlines. Places of the two
texts stand beside each other; the place in front of the newline stands beside two places of the
wider text, one on each side of the further blank. Readings of the two texts agree where they come
to endings whose places stand beside each other, and most parts of a pattern keep the agreement of
what follows them. A part that needs a blank keeps it where what follows begins with no blank, and
so does one that looks at the edge of a word. -/

namespace SourceSurvey

open Text

/-- The place between two parts of a text. -/
def Cursor.between (v u : Text) : Cursor := ⟨v.reverse, byteLength v, u⟩

theorem Cursor.past_between (v u : Text) (c : Char) :
    (between v (c :: u)).past c u = between (v ++ [c]) u := by
  simp [between, past, byteLength_append, byteLength]

namespace Source

open Pattern

/-- A text with a newline in it, and a blank to put in front of the newline. -/
structure Widening where
  front : Text
  blank : Char
  behind : Text
  proper : isBlank blank = true

namespace Widening

/-- The text without the blank. -/
def narrow (g : Widening) : Text := g.front ++ '\n' :: g.behind

/-- The text with the blank. -/
def wide (g : Widening) : Text := g.front ++ g.blank :: '\n' :: g.behind

/-- The place in front of the newline. -/
def gap (g : Widening) : Cursor := .between g.front ('\n' :: g.behind)

/-- The place of the wider text in front of the blank. -/
def wideGap (g : Widening) : Cursor := .between g.front (g.blank :: '\n' :: g.behind)

/-- Places that stand beside each other. -/
inductive Beside (g : Widening) : Cursor → Cursor → Prop
  | ahead {v u : Text} (h : v ++ u = g.front) :
    g.Beside (.between v (u ++ '\n' :: g.behind)) (.between v (u ++ g.blank :: '\n' :: g.behind))
  | inside : g.Beside g.gap (.between (g.front ++ [g.blank]) ('\n' :: g.behind))
  | past {v u : Text} (h : v ++ u = g.behind) :
    g.Beside (.between (g.front ++ '\n' :: v) u) (.between (g.front ++ g.blank :: '\n' :: v) u)

variable {g : Widening} {here here' there there' : Cursor}

/-- Places beside each other are both at the end, or both in front of the same character, with
places beside each other behind it, or they are the two places where the blank makes the difference.
-/
theorem Beside.view (h : g.Beside here here') :
    (here.rest = [] ∧ here'.rest = []) ∨
      (∃ c rest rest', here.rest = c :: rest ∧ here'.rest = c :: rest' ∧
        g.Beside (here.past c rest) (here'.past c rest') ∧ here' ≠ g.wideGap) ∨
      (here = g.gap ∧ here' = g.wideGap) := by
  have other : ∀ {there : Cursor}, there.rest.length ≠ g.behind.length + 2 → there ≠ g.wideGap := by
    rintro _ hl rfl
    exact hl rfl
  cases h with
  | @ahead v u h =>
    cases u with
    | nil =>
      rw [List.append_nil] at h
      exact .inr (.inr ⟨by rw [h]; rfl, by rw [h]; rfl⟩)
    | cons c u =>
      refine .inr
        (.inl ⟨c, u ++ '\n' :: g.behind, u ++ g.blank :: '\n' :: g.behind, rfl, rfl, ?_, other ?_⟩)
      · rw [List.cons_append, List.cons_append, Cursor.past_between, Cursor.past_between]
        exact .ahead (by rw [← h, List.append_assoc, List.singleton_append])
      · simp only [Cursor.between, List.length_append, List.length_cons]
        omega
  | inside =>
    refine .inr (.inl ⟨'\n', _, _, rfl, rfl, ?_, other (by simp [Cursor.between])⟩)
    rw [gap, Cursor.past_between, Cursor.past_between, List.append_assoc]
    exact .past (List.nil_append g.behind)
  | @past v u h =>
    cases u with
    | nil => exact .inl ⟨rfl, rfl⟩
    | cons c u =>
      have split : (v ++ [c]) ++ u = g.behind := by
        rw [← h, List.append_assoc, List.singleton_append]
      refine .inr (.inl ⟨c, _, _, rfl, rfl, ?_, other ?_⟩)
      · rw [Cursor.past_between, Cursor.past_between]
        simpa using Beside.past split
      · simp only [Cursor.between, List.length_cons, ← h, List.length_append]
        omega

theorem Beside.at_gap_or (h : g.Beside here here') :
    (here = g.gap ∧ here' = g.wideGap) ∨ here' ≠ g.wideGap := by
  rcases h.view with ⟨-, hr'⟩ | ⟨-, -, -, -, -, -, hw⟩ | hgap
  · refine .inr fun hw => ?_
    rw [hw] at hr'
    exact absurd hr' (by simp [wideGap, Cursor.between])
  · exact .inr hw
  · exact .inl hgap

theorem Beside.isBlank_head? (h : g.Beside here here') :
    here.rest.head?.any isBlank = here'.rest.head?.any isBlank := by
  rcases h.view with ⟨hr, hr'⟩ | ⟨c, rest, rest', hr, hr', -, -⟩ | ⟨rfl, rfl⟩
  · rw [hr, hr']
  · rw [hr, hr', List.head?_cons, List.head?_cons]
  · exact g.proper.symm

/-- In front of no blank, a place is as far from another one as the place beside it is. -/
theorem Beside.length_lt_iff (h : g.Beside here here') (ht : g.Beside there there')
    (hn : here.rest.head?.any isBlank = false ∨ there.rest.head?.any isBlank = false) :
    there.rest.length < here.rest.length ↔ there'.rest.length < here'.rest.length := by
  have ahead :
      ∀ {v u : Text}, (Cursor.between v (u ++ '\n' :: g.behind)).rest.head?.any isBlank = false →
      0 < u.length := by
    intro v u hb
    cases u with
    | nil => exact absurd hb (by simp [Cursor.between, isBlank])
    | cons => simp
  have inside : g.gap.rest.head?.any isBlank ≠ false := by simp [gap, Cursor.between, isBlank]
  cases h <;> cases ht <;> simp only [gap, Cursor.between, List.length_append, List.length_cons]
    at * <;> grind

/-- The place in front of the newline stands beside the one behind the further blank, too. -/
theorem beside_past_wideGap : g.Beside g.gap (g.wideGap.past g.blank ('\n' :: g.behind)) := by
  rw [wideGap, Cursor.past_between]
  exact .inside

theorem beside_past_gap :
    g.Beside (g.gap.past '\n' g.behind)
      ((g.wideGap.past g.blank ('\n' :: g.behind)).past '\n' g.behind) := by
  rw [gap, wideGap, Cursor.past_between, Cursor.past_between, Cursor.past_between,
    List.append_assoc]
  exact .past (List.nil_append g.behind)

theorem rest_past_wideGap : (g.wideGap.past g.blank ('\n' :: g.behind)).rest = '\n' :: g.behind :=
  rfl

theorem past_wideGap_ne : g.wideGap.past g.blank ('\n' :: g.behind) ≠ g.wideGap := by
  intro h
  have := congrArg (fun here : Cursor => here.rest.length) h
  simp [wideGap, Cursor.between, Cursor.past] at this

/-! ### Endings -/

variable {σ : Type} {P : Cursor → Prop} {N N' : Next σ} {e e' : Ending σ} {p q : Pattern σ}
  {bad : Char → Bool}

/-- Endings whose places stand beside each other. -/
structure Alike (g : Widening) (e e' : Ending σ) : Prop where
  last : g.Beside e.last e'.last
  begins : List.Forall₂ (fun m m' => m.1 = m'.1 ∧ g.Beside m.2 m'.2) e.begins e'.begins
  ends : List.Forall₂ (fun m m' => m.1 = m'.1 ∧ g.Beside m.2 m'.2) e.ends e'.ends

/-- Readings that come to endings alike wherever they go on from places beside each other. -/
def Agree (g : Widening) (P : Cursor → Prop) (N N' : Next σ) : Prop :=
  ∀ here here', g.Beside here here' → P here → Option.Rel g.Alike (N here) (N' here')

/-- All places. -/
def Anywhere : Cursor → Prop := fun _ => True

theorem rel_or {α β : Type} {r : α → β → Prop} {a b : Option α} {a' b' : Option β}
    (ha : Option.Rel r a a') (hb : Option.Rel r b b') : Option.Rel r (a.or b) (a'.or b') := by
  cases ha with
  | some h => exact .some h
  | none => exact hb

/-- A second attempt that does no better than the first makes no difference. -/
theorem rel_or_of_none {α β : Type} {r : α → β → Prop} {a : Option α} {b b' : Option β}
    (h : Option.Rel r a b) (h' : a = none → b' = none) : Option.Rel r a (b.or b') := by
  cases h with
  | some h => exact .some h
  | none =>
    rw [h' rfl]
    exact .none

/-- A first attempt on both sides leaves what comes after it for the case that both fail. -/
theorem rel_or_of_first {α β : Type} {r : α → β → Prop} {a a' : Option α} {b b' : Option β}
    (h : Option.Rel r a b) (h' : Option.Rel r (a.or a') b') : Option.Rel r (a.or a') (b.or b') := by
  cases h with
  | some h => exact .some h
  | none => exact h'

theorem eq_none_iff_of_rel {α β : Type} {r : α → β → Prop} {a : Option α} {b : Option β}
    (h : Option.Rel r a b) :
    a = none ↔ b = none := by
  cases h <;> simp

theorem Alike.markBegin {name : σ} (h : g.Alike e e') (hb : g.Beside here here') :
    g.Alike (.markBegin name here e) (.markBegin name here' e') :=
  ⟨h.last, .cons ⟨rfl, hb⟩ h.begins, h.ends⟩

theorem Alike.markEnd {name : σ} (h : g.Alike e e') (hb : g.Beside here here') :
    g.Alike (.markEnd name here e) (.markEnd name here' e') :=
  ⟨h.last, h.begins, .cons ⟨rfl, hb⟩ h.ends⟩

theorem rel_map {α β α' β' : Type} {r : α → β → Prop} {r' : α' → β' → Prop} {a : Option α}
    {b : Option β} {f : α → α'}
    {f' : β → β'} (h : Option.Rel r a b) (hf : ∀ x y, r x y → r' (f x) (f' y)) :
    Option.Rel r' (a.map f) (b.map f') := by
  cases h with
  | some h => exact .some (hf _ _ h)
  | none => exact .none

theorem agree_stopHere : Agree g P (stopHere : Next σ) stopHere :=
  fun _ _ h _ => .some ⟨h, .nil, .nil⟩

theorem Agree.markEnd {name : σ} (h : Agree g P N N') :
    Agree g P (fun there => (N there).map (.markEnd name there)) fun there =>
      (N' there).map (.markEnd name there) :=
  fun here here' hb hp => rel_map (h here here' hb hp) fun _ _ ha => ha.markEnd hb

/-! ### Parts that keep the agreement -/

theorem agree_alt (hp : Agree g P (p.run · N) (p.run · N'))
    (hq : Agree g P (q.run · N) (q.run · N')) :
    Agree g P ((alt p q).run · N) ((alt p q).run · N') :=
  fun here here' hb hh => rel_or (hp here here' hb hh) (hq here here' hb hh)

theorem agree_optional (h : Agree g P N N') (hp : Agree g P (p.run · N) (p.run · N')) :
    Agree g P ((optional p).run · N) ((optional p).run · N') :=
  agree_alt hp h

theorem agree_mark {name : σ}
    (h : Agree g P (p.run · fun there => (N there).map (.markEnd name there))
      (p.run · fun there => (N' there).map (.markEnd name there))) :
    Agree g P ((mark name p).run · N) ((mark name p).run · N') :=
  fun here here' hb hp => rel_map (h here here' hb hp) fun _ _ ha => ha.markBegin hb

/-! ### Characters -/

section Characters

variable {Q : Cursor → Prop} {accepts : Char → Bool} {c : Char} {rest : Text}

/-- A character that is no blank is read on both sides. -/
theorem agree_one (hs : ∀ c, accepts c = true → Text.isBlank c = false) (h : Agree g Q N N')
    (hq : ∀ here c rest, P here → here.rest = c :: rest → accepts c = true → Q (here.past c rest)) :
    Agree g P ((one accepts).run · N) ((one accepts).run · N') := by
  intro here here' hb hp
  have noBlank : ∀ c, Text.isBlank c = true → accepts c = false := fun c hc => by
    by_contra ha
    rw [Bool.not_eq_false] at ha
    rw [hs c ha] at hc
    exact absurd hc (by simp)
  rcases hb.view with ⟨hr, hr'⟩ | ⟨c, rest, rest', hr, hr', hb', -⟩ | ⟨rfl, rfl⟩
  · beta_reduce
    rw [run_one_nil hr, run_one_nil hr']
    exact .none
  · beta_reduce
    rw [run_one_cons hr, run_one_cons hr']
    split
    · next ha => exact h _ _ hb' (hq here c rest hp hr ha)
    · exact .none
  · have narrow : (one accepts).run g.gap N = _ := run_one_cons rfl
    have wide : (one accepts).run g.wideGap N' = _ := run_one_cons rfl
    beta_reduce
    rw [narrow, wide, noBlank _ (by decide), noBlank _ g.proper]
    exact .none

/-- A body of rounds that reads one blank at a time, if it reads blanks at all, and keeps the
agreement where no blank stands. -/
structure Strides (g : Widening) (P : Cursor → Prop) (accepts : Char → Bool)
    (body : Pattern σ) : Prop where
  gap : ∀ (N : Next σ) here c rest, here.rest = c :: rest → Text.isBlank c = true →
    body.run here N = if accepts c then N (here.past c rest) else none
  step : ∀ N N' : Next σ, Agree g P N N' → ∀ here here', g.Beside here here' → P here →
    here.rest.head?.any Text.isBlank = false →
      Option.Rel g.Alike (body.run here N) (body.run here' N')
  wide : accepts '\n' = true → accepts g.blank = true
  keeps : ∀ here c rest, P here → here.rest = c :: rest → Text.isBlank c = true →
    P (here.past c rest)

theorem strides_one (hw : accepts '\n' = true → accepts g.blank = true)
    (hp : ∀ here c rest, P here → here.rest = c :: rest → accepts c = true ∨ Text.isBlank c = true →
    P (here.past c rest)) :
    Strides g P accepts (one accepts : Pattern σ) where
  gap _ _ _ _ hr _ := run_one_cons hr
  wide := hw
  keeps here c rest h hr hc := hp here c rest h hr (.inr hc)
  step N N' h here here' hb hh hn := by
    rcases hb.view with ⟨hr, hr'⟩ | ⟨c, rest, rest', hr, hr', hb', -⟩ | ⟨rfl, rfl⟩
    · rw [run_one_nil hr, run_one_nil hr']
      exact .none
    · rw [run_one_cons hr, run_one_cons hr']
      split
      · next ha => exact h _ _ hb' (hp here c rest hh hr (.inl ha))
      · exact .none
    · exact absurd hn (by simp [Widening.gap, Cursor.between, Text.isBlank])

theorem Strides.run_round {body : Pattern σ} (hs : Strides g P accepts body)
    {M : Cursor → Option (Ending σ)} (hr : here.rest = c :: rest) (hc : Text.isBlank c = true) :
    (body.run here fun there => if there.rest.length < here.rest.length then M there else none) =
      if accepts c then M (here.past c rest) else none := by
  have shorter : (here.past c rest).rest.length < here.rest.length := by simp [hr, Cursor.past]
  rw [hs.gap _ here c rest hr hc, if_pos shorter]

/-- A round on both sides, if what follows it agrees where less is left. In front of the blank of
the wider text a round is another one. -/
theorem Strides.rel_round {body : Pattern σ} (hs : Strides g P accepts body)
    {M M' : Cursor → Option (Ending σ)}
    (hb : g.Beside here here') (hp : P here) (hw : here' ≠ g.wideGap)
    (h : ∀ there there', there.rest.length < here.rest.length → g.Beside there there' → P there →
      Option.Rel g.Alike (M there) (M' there')) :
    Option.Rel g.Alike (body.run here fun there => if there.rest.length < here.rest.length
      then M there else none)
      (body.run here' fun there => if there.rest.length < here'.rest.length then M' there
        else none) := by
  by_cases hblank : here.rest.head?.any Text.isBlank = true
  · rcases hb.view with ⟨hr, -⟩ | ⟨c, rest, rest', hr, hr', hb', -⟩ | ⟨-, hgap⟩
    · rw [hr] at hblank
      exact absurd hblank (by simp)
    · have hc : Text.isBlank c = true := by simpa [hr] using hblank
      rw [hs.run_round hr hc, hs.run_round hr' hc]
      split
      · exact h _ _ (by simp [hr, Cursor.past]) hb' (hs.keeps here c rest hp hr hc)
      · exact .none
    · exact absurd hgap hw
  · rw [Bool.not_eq_true] at hblank
    refine hs.step _ _ (fun there there' hb' hp' => ?_) here here' hb hp hblank
    have same := hb.length_lt_iff hb' (.inl hblank)
    by_cases hl : there.rest.length < here.rest.length
    · rw [if_pos hl, if_pos (same.mp hl)]
      exact h there there' hl hb' hp'
    · rw [if_neg hl, if_neg fun hl' => hl (same.mpr hl')]
      exact .none

theorem agree_star {body : Pattern σ} (hs : Strides g P accepts body) (h : Agree g P N N') :
    Agree g P ((star body).run · N) ((star body).run · N') := by
  intro here here' hb hp
  simp only [run]
  induction hn : here.rest.length using Nat.strongRecOn generalizing here here' with
  | ind n ih =>
    have away : ∀ here here', here.rest.length = n → g.Beside here here' → P here →
        here' ≠ g.wideGap →
        Option.Rel g.Alike (rounds body.run N here) (rounds body.run N' here') := by
      rintro here here' rfl hb hp hw
      rw [rounds_eq, rounds_eq]
      exact rel_or (hs.rel_round hb hp hw fun there there' hl hb' hp' =>
        ih _ hl there there' hb' hp' rfl) (h here here' hb hp)
    rcases hb.at_gap_or with ⟨rfl, rfl⟩ | hw
    · -- the wider text may stop on both sides of the blank, where the other one stops once
      have hr : g.gap.rest = '\n' :: g.behind := rfl
      have hr' : g.wideGap.rest = g.blank :: '\n' :: g.behind := rfl
      have inside := away _ _ hn beside_past_wideGap hp past_wideGap_ne
      rw [rounds_eq _ _ g.wideGap, hs.run_round hr' g.proper]
      by_cases ha : accepts g.blank = true
      · rw [if_pos ha]
        refine rel_or_of_none inside fun hnone => ?_
        rw [rounds_eq, Option.or_eq_none_iff] at hnone
        exact (eq_none_iff_of_rel (h _ _ hb hp)).mp hnone.2
      · have ha' : ¬accepts '\n' = true := fun hn => ha (hs.wide hn)
        rw [if_neg ha, Option.none_or, rounds_eq, hs.run_round hr (by decide), if_neg ha',
          Option.none_or]
        exact h _ _ hb hp
    · exact away here here' hn hb hp hw

theorem agree_lazyStar {body : Pattern σ} (hs : Strides g P accepts body) (h : Agree g P N N') :
    Agree g P ((lazyStar body).run · N) ((lazyStar body).run · N') := by
  intro here here' hb hp
  simp only [run]
  induction hn : here.rest.length using Nat.strongRecOn generalizing here here' with
  | ind n ih =>
    have away : ∀ here here', here.rest.length = n → g.Beside here here' → P here →
        here' ≠ g.wideGap →
        Option.Rel g.Alike (lazyRounds body.run N here) (lazyRounds body.run N' here') := by
      rintro here here' rfl hb hp hw
      rw [lazyRounds_eq, lazyRounds_eq]
      exact rel_or (h here here' hb hp) (hs.rel_round hb hp hw fun there there' hl hb' hp' =>
        ih _ hl there there' hb' hp' rfl)
    rcases hb.at_gap_or with ⟨rfl, rfl⟩ | hw
    · have hr : g.gap.rest = '\n' :: g.behind := rfl
      have hr' : g.wideGap.rest = g.blank :: '\n' :: g.behind := rfl
      have inside := away _ _ hn beside_past_wideGap hp past_wideGap_ne
      rw [lazyRounds_eq _ _ g.wideGap, hs.run_round hr' g.proper]
      rw [lazyRounds_eq _ _ g.gap] at inside ⊢
      by_cases ha : accepts g.blank = true
      · rw [if_pos ha]
        exact rel_or_of_first (h _ _ hb hp) inside
      · have ha' : ¬accepts '\n' = true := fun hn => ha (hs.wide hn)
        rw [if_neg ha, Option.or_none, hs.run_round hr (by decide), if_neg ha', Option.or_none]
        exact h _ _ hb hp
    · exact away here here' hn hb hp hw

theorem agree_blanks (hp : ∀ (here : Cursor) c rest, P here → Text.isBlank c = true →
    P (here.past c rest)) (h : Agree g P N N') :
    Agree g P (blanks.run · N) (blanks.run · N') :=
  agree_star (strides_one (fun _ => g.proper) fun here c rest hh _ hc =>
    hp here c rest hh (hc.elim id id)) h

/-- Blanks that must be there keep the agreement where nothing can follow in front of a blank. -/
theorem agree_someBlanks (hq : ∀ (here : Cursor) c rest, Text.isBlank c = true →
    Q (here.past c rest)) (h : Agree g Q N N')
    (hs : Shuns Text.isBlank N') : Agree g P (someBlanks.run · N) (someBlanks.run · N') := by
  have later : Agree g Q (blanks.run · N) (blanks.run · N') :=
    agree_blanks (fun here c rest _ => hq here c rest) h
  intro here here' hb _
  have split :
      ∀ (here : Cursor) (N : Next σ), someBlanks.run here N = (one Text.isBlank).run here
        (blanks.run · N) :=
    fun _ _ => rfl
  beta_reduce
  rw [split, split]
  rcases hb.view with ⟨hr, hr'⟩ | ⟨c, rest, rest', hr, hr', hb', -⟩ | ⟨rfl, rfl⟩
  · rw [run_one_nil hr, run_one_nil hr']
    exact .none
  · rw [run_one_cons hr, run_one_cons hr']
    split
    · next hc => exact later _ _ hb' (hq here c rest hc)
    · exact .none
  · have hr : g.gap.rest = '\n' :: g.behind := rfl
    have hr' : g.wideGap.rest = g.blank :: '\n' :: g.behind := rfl
    have stops : N' (g.wideGap.past g.blank ('\n' :: g.behind)) = none :=
      hs _ (by rw [rest_past_wideGap]; rfl)
    have wide : blanks.run (g.wideGap.past g.blank ('\n' :: g.behind)) N' = _ :=
      run_star_one_cons rest_past_wideGap (by decide)
    rw [run_one_cons hr, run_one_cons hr', if_pos g.proper, if_pos (by decide), wide, stops,
      Option.or_none]
    exact later _ _ beside_past_gap (hq g.gap '\n' g.behind (by decide))

/-- A lazy part keeps the agreement but where the blank would be all that it reads. -/
theorem rel_lazyPlus (hw : accepts '\n' = true → accepts g.blank = true) (h : Agree g Anywhere N N')
    (hb : g.Beside here here') (hn : here' ≠ g.wideGap) :
    Option.Rel g.Alike ((lazyPlus (one accepts)).run here N)
      ((lazyPlus (one accepts)).run here' N') := by
  have later := agree_lazyStar (strides_one hw fun _ _ _ _ _ _ => trivial) h
  have split : ∀ (here : Cursor) (N : Next σ), (lazyPlus (one accepts)).run here N =
      (one accepts).run here ((lazyStar (one accepts)).run · N) := fun _ _ => rfl
  rw [split, split]
  rcases hb.view with ⟨hr, hr'⟩ | ⟨c, rest, rest', hr, hr', hb', -⟩ | ⟨-, hw⟩
  · rw [run_one_nil hr, run_one_nil hr']
    exact .none
  · rw [run_one_cons hr, run_one_cons hr']
    split
    · exact later _ _ hb' trivial
    · exact .none
  · exact absurd hw hn

theorem agree_lazyPlus (hw : accepts '\n' = true → accepts g.blank = true)
    (h : Agree g Anywhere N N') (hs : Shuns Text.isBlank N') :
    Agree g P ((lazyPlus (one accepts)).run · N) ((lazyPlus (one accepts)).run · N') := by
  intro here here' hb _
  rcases hb.at_gap_or with ⟨rfl, rfl⟩ | hn
  · have later := agree_lazyStar (strides_one hw fun _ _ _ _ _ _ => trivial) h
    have split : ∀ (here : Cursor) (N : Next σ), (lazyPlus (one accepts)).run here N =
        (one accepts).run here ((lazyStar (one accepts)).run · N) := fun _ _ => rfl
    have hr : g.gap.rest = '\n' :: g.behind := rfl
    have hr' : g.wideGap.rest = g.blank :: '\n' :: g.behind := rfl
    have stops : N' (g.wideGap.past g.blank ('\n' :: g.behind)) = none :=
      hs _ (by rw [rest_past_wideGap]; rfl)
    beta_reduce
    rw [split, split, run_one_cons hr, run_one_cons hr']
    by_cases ha : accepts '\n' = true
    · have wide : (lazyStar (one accepts)).run (g.wideGap.past g.blank ('\n' :: g.behind)) N' = _ :=
        run_lazyStar_one_cons rest_past_wideGap ha
      rw [if_pos ha, if_pos (hw ha), wide, stops, Option.none_or]
      exact later _ _ beside_past_gap trivial
    · have wide : (lazyStar (one accepts)).run (g.wideGap.past g.blank ('\n' :: g.behind)) N' = _ :=
        run_lazyStar_one_of_not rest_past_wideGap ha
      rw [if_neg ha, wide, stops]
      split
      · exact .none
      · exact .none
  · exact rel_lazyPlus hw h hb hn

end Characters

/-! ### Words and rows -/

section Rows

variable {Q : Cursor → Prop} {ps : List (Pattern σ)} {t : Text} {c : Char}

theorem agree_all_cons (h : Agree g P (p.run · ((all ps).run · N)) (p.run · ((all ps).run · N'))) :
    Agree g P ((all (p :: ps)).run · N) ((all (p :: ps)).run · N') := by
  simpa only [run_all_cons] using h

theorem agree_sign (hc : Text.isBlank c = false) (h : Agree g Q N N')
    (hq : ∀ here rest, P here → here.rest = c :: rest → Q (here.past c rest)) :
    Agree g P ((sign c).run · N) ((sign c).run · N') := by
  refine agree_one (fun d hd => ?_) h fun here d rest hp hr hd => ?_
  · rw [of_decide_eq_true hd]
    exact hc
  · obtain rfl : d = c := of_decide_eq_true hd
    exact hq here rest hp hr

theorem agree_literal (ht : Solid t) (h : Agree g Q N N')
    (hq : ∀ here rest, P here → here.rest = t ++ rest → Q (here.beyond t rest)) :
    Agree g P ((literal t).run · N) ((literal t).run · N') := by
  induction t generalizing P with
  | nil =>
    intro here here' hb hp
    exact h here here' hb (hq here here.rest hp rfl)
  | cons c t ih =>
    have later :
        Agree g (fun mid => ∃ here rest, P here ∧ here.rest = c :: rest ∧ mid = here.past c rest)
        ((literal t).run · N) ((literal t).run · N') := by
      refine ih (fun d hd => ht d (List.mem_cons_of_mem c hd)) ?_
      rintro _ rest ⟨here, _, hp, hr, rfl⟩ (rfl : _ = t ++ rest)
      have := hq here rest hp hr
      rwa [Cursor.past_eq_beyond, Cursor.beyond_beyond]
    exact agree_all_cons (agree_sign (ht c List.mem_cons_self) later fun here rest hp hr =>
      ⟨here, rest, hp, hr, rfl⟩)

theorem agree_any (h : ∀ p ∈ ps, Agree g P (p.run · N) (p.run · N')) :
    Agree g P ((any ps).run · N) ((any ps).run · N') := by
  induction ps with
  | nil =>
    intro here here' _ _
    have none : ∀ (here : Cursor) (N : Next σ),
        (any ([] : List (Pattern σ))).run here N = none := by
      intro here N
      simp only [any, run]
      split <;> rfl
    beta_reduce
    rw [none, none]
    exact .none
  | cons p ps ih =>
    intro here here' hb hp
    simp only [run_any_cons]
    exact rel_or (h p List.mem_cons_self here here' hb hp)
      (ih (fun q hq => h q (List.mem_cons_of_mem p hq)) here here' hb hp)

theorem agree_oneOf {words : List Text} (hw : ∀ w ∈ words, Solid w) (h : Agree g Anywhere N N') :
    Agree g P ((oneOf words).run · N) ((oneOf words).run · N') := by
  refine agree_any fun p hp => ?_
  obtain ⟨w, hw', rfl⟩ := List.mem_map.mp hp
  exact agree_literal (hw w hw') h fun _ _ _ _ => trivial

/-- In front of no blank, what stands before a place is what stands before the one beside it, or the
blank stands in it in front of its newline. -/
theorem Beside.before_eq (h : g.Beside here here') (hn : here.rest.head?.any Text.isBlank = false) :
    here'.before = here.before ∨
      ∃ m, here.before = m ++ '\n' :: g.front.reverse ∧
        here'.before = m ++ '\n' :: g.blank :: g.front.reverse := by
  cases h with
  | ahead => exact .inl rfl
  | inside => exact absurd hn (by simp [gap, Cursor.between, Text.isBlank])
  | @past v u => exact .inr ⟨v.reverse, by simp [Cursor.between], by simp [Cursor.between]⟩

theorem Beside.atWordEdge_eq (h : g.Beside here here')
    (hn : here.rest.head?.any Text.isBlank = false) :
    here.atWordEdge = here'.atWordEdge := by
  have front : here.before.head?.any isWord = here'.before.head?.any isWord := by
    rcases h.before_eq hn with h | ⟨m, h, h'⟩
    · rw [h]
    · rw [h, h', List.head?_append, List.head?_append, List.head?_cons, List.head?_cons]
  have back : here.rest.head?.any isWord = here'.rest.head?.any isWord := by
    rcases h.view with ⟨hr, hr'⟩ | ⟨c, rest, rest', hr, hr', -, -⟩ | ⟨rfl, rfl⟩
    · rw [hr, hr']
    · rw [hr, hr', List.head?_cons, List.head?_cons]
    · exact absurd hn (by simp [gap, Cursor.between, Text.isBlank])
  rw [Cursor.atWordEdge, Cursor.atWordEdge, front, back]

theorem agree_wordEdge (h : Agree g P N N') (hs : Shuns Text.isBlank N)
    (hs' : Shuns Text.isBlank N') :
    Agree g P (wordEdge.run · N) (wordEdge.run · N') := by
  intro here here' hb hp
  simp only [run]
  by_cases hblank : here.rest.head?.any Text.isBlank = true
  · rw [hs here hblank, hs' here' (hb.isBlank_head? ▸ hblank), ite_self, ite_self]
    exact .none
  · rw [Bool.not_eq_true] at hblank
    rw [← hb.atWordEdge_eq hblank]
    split
    · exact h here here' hb hp
    · exact .none

/-- Rounds that cannot begin with a blank keep the agreement where nothing can follow in front of a
blank. -/
theorem agree_star_of_shy {body : Pattern σ} (hshy : Shy Text.isBlank body)
    (hbody : ∀ N N' : Next σ, Agree g Anywhere N N' → Shuns Text.isBlank N → Shuns Text.isBlank N' →
      Agree g Anywhere (body.run · N) (body.run · N'))
    (h : Agree g Anywhere N N') (hs : Shuns Text.isBlank N) (hs' : Shuns Text.isBlank N') :
    Agree g Anywhere ((star body).run · N) ((star body).run · N') := by
  intro here here' hb _
  simp only [run]
  induction hn : here.rest.length using Nat.strongRecOn generalizing here here' with
  | ind n ih =>
    subst hn
    rw [Pattern.rounds_eq, Pattern.rounds_eq]
    have stops : ∀ {N : Next σ} (bound : Nat), Shuns Text.isBlank N →
        Shuns Text.isBlank fun there => if there.rest.length < bound then rounds body.run N there
          else none := by
      intro N bound hs there hb
      have passed : rounds body.run N there = N there := hshy.run_star N hb
      beta_reduce
      rw [passed, hs there hb, ite_self]
    refine rel_or
      (hbody _ _ (fun there there' hb' _ => ?_) (stops _ hs) (stops _ hs') here here' hb trivial)
      (h here here' hb trivial)
    by_cases hblank : there.rest.head?.any Text.isBlank = true
    · have stop := stops here.rest.length hs there hblank
      have stop' := stops here'.rest.length hs' there' (hb'.isBlank_head? ▸ hblank)
      beta_reduce at stop stop'
      rw [stop, stop']
      exact .none
    · rw [Bool.not_eq_true] at hblank
      have same := hb.length_lt_iff hb' (.inr hblank)
      by_cases hl : there.rest.length < here.rest.length
      · rw [if_pos hl, if_pos (same.mp hl)]
        exact ih _ hl there there' hb' trivial rfl
      · rw [if_neg hl, if_neg fun hl' => hl (same.mpr hl')]
        exact .none

end Rows

end Widening
end Source
end SourceSurvey
