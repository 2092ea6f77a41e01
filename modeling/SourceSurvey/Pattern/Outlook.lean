import SourceSurvey.Pattern.Basic

/-! Matches found from the end of a text. The outlook of a pattern at a place tells, for every
character of the pattern, the ending to which reading that character here leads. From the outlook
at a place and the ending of what follows there, `foresee` finds the ending of the pattern at that
place and the outlook at the place before it, so one pass from right to left finds what a pattern
comes to at every place of a text. `foreseeAll_eq_run` says that it finds what a run finds. -/

namespace SourceSurvey.Pattern

variable {σ : Type}

inductive Outlook (σ : Type) where
  /-- No character leads to an ending. -/
  | dark
  | sight (e : Ending σ)
  | fork (first second : Outlook σ)

namespace Outlook

def ofEnding? : Option (Ending σ) → Outlook σ
  | none => dark
  | some e => sight e

def ending? : Outlook σ → Option (Ending σ)
  | sight e => some e
  | _ => none

def first : Outlook σ → Outlook σ
  | fork a _ => a
  | _ => dark

def second : Outlook σ → Outlook σ
  | fork _ b => b
  | _ => dark

/-- The outlook with the given parts. -/
def join : Outlook σ → Outlook σ → Outlook σ
  | dark, dark => dark
  | a, b => fork a b

@[simp] theorem ending?_ofEnding? (e : Option (Ending σ)) : (ofEnding? e).ending? = e := by
  cases e <;> rfl

@[simp] theorem first_join (a b : Outlook σ) : (join a b).first = a := by
  cases a <;> cases b <;> rfl

@[simp] theorem second_join (a b : Outlook σ) : (join a b).second = b := by
  cases a <;> cases b <;> rfl

end Outlook

/-- Nothing is found where nothing is ahead and nothing follows. -/
@[inline] def unlessIdle (ahead : Outlook σ) (following : Option (Ending σ))
    (found : Unit → Option (Ending σ) × Outlook σ) : Option (Ending σ) × Outlook σ :=
  match ahead, following with
  | .dark, none => (none, .dark)
  | _, _ => found ()

/-- The ending of the pattern at a place, and the outlook at the place before, from the outlook at
the place and the ending of what follows there. -/
def foresee : Pattern σ → Outlook σ → Cursor → Option (Ending σ) → Option (Ending σ) × Outlook σ
  | nothing, _, _, following => (following, .dark)
  | one accepts, ahead, here, following =>
    (if here.rest.head?.any accepts then ahead.ending? else none, .ofEnding? following)
  | seq first second, ahead, here, following =>
    unlessIdle ahead following fun _ =>
      let (middle, later) := second.foresee ahead.second here following
      let (found, earlier) := first.foresee ahead.first here middle
      (found, earlier.join later)
  | alt first second, ahead, here, following =>
    unlessIdle ahead following fun _ =>
      let (found, left) := first.foresee ahead.first here following
      let (other, right) := second.foresee ahead.second here following
      (found.or other, left.join right)
  | star body, ahead, here, following =>
    unlessIdle ahead following fun _ =>
      let found := (body.foresee ahead here none).1.or following
      (found, (body.foresee ahead here found).2)
  | lazyStar body, ahead, here, following =>
    unlessIdle ahead following fun _ =>
      let found := following.or (body.foresee ahead here none).1
      (found, (body.foresee ahead here found).2)
  | mark name body, ahead, here, following =>
    let (found, before) := body.foresee ahead here (following.map (.markEnd name here))
    (found.map (.markBegin name here), before)
  | wordEdge, _, here, following => (if here.atWordEdge then following else none, .dark)
  | lineStart, _, here, following => (if here.atLineStart then following else none, .dark)

/-- The endings of the pattern at some places in a row. -/
def foreseeAll (p : Pattern σ) (next : Next σ) (places : List Cursor) :
    Outlook σ × List (Option (Ending σ)) :=
  places.foldr (fun here (ahead, later) =>
    let (found, before) := p.foresee ahead here (next here)
    (before, found :: later)) (.dark, [])

/-! ### Equations -/

theorem foresee_idle (p : Pattern σ)
    (here : Cursor) : p.foresee .dark here none = (none, .dark) := by
  induction p with
  | one accepts => simp [foresee, Outlook.ending?, Outlook.ofEnding?]
  | mark name body ih => simp [foresee, ih]
  | wordEdge => simp [foresee]
  | lineStart => simp [foresee]
  | _ => rfl

/-- An idle place needs no case of its own where the general case finds nothing. -/
theorem unlessIdle_eq {ahead : Outlook σ} {following : Option (Ending σ)}
    {found : Unit → Option (Ending σ) × Outlook σ}
    (h : ahead = .dark → following = none → found () = (none, .dark)) :
    unlessIdle ahead following found = found () := by
  cases ahead <;> cases following <;> first | exact (h rfl rfl).symm | rfl

theorem foresee_seq (first second : Pattern σ) (ahead : Outlook σ) (here : Cursor)
    (following : Option (Ending σ)) :
    (seq first second).foresee ahead here following =
      let middle := second.foresee ahead.second here following
      let found := first.foresee ahead.first here middle.1
      (found.1, found.2.join middle.2) :=
  unlessIdle_eq fun ha hf => by
    subst ha hf; simp [Outlook.first, Outlook.second, foresee_idle, Outlook.join]

theorem foresee_alt (first second : Pattern σ) (ahead : Outlook σ) (here : Cursor)
    (following : Option (Ending σ)) :
    (alt first second).foresee ahead here following =
      ((first.foresee ahead.first here following).1.or
        (second.foresee ahead.second here following).1,
        (first.foresee ahead.first here following).2.join
          (second.foresee ahead.second here following).2) :=
  unlessIdle_eq fun ha hf => by
    subst ha hf; simp [Outlook.first, Outlook.second, foresee_idle, Outlook.join]

theorem foresee_star (body : Pattern σ) (ahead : Outlook σ) (here : Cursor)
    (following : Option (Ending σ)) :
    (star body).foresee ahead here following =
      let found := (body.foresee ahead here none).1.or following
      (found, (body.foresee ahead here found).2) :=
  unlessIdle_eq fun ha hf => by subst ha hf; simp [foresee_idle]

theorem foresee_lazyStar (body : Pattern σ) (ahead : Outlook σ) (here : Cursor)
    (following : Option (Ending σ)) :
    (lazyStar body).foresee ahead here following =
      let found := following.or (body.foresee ahead here none).1
      (found, (body.foresee ahead here found).2) :=
  unlessIdle_eq fun ha hf => by subst ha hf; simp [foresee_idle]

/-! ### Agreement with runs -/

theorem rounds_eq (round : Cursor → Next σ → Option (Ending σ)) (next : Next σ) (here : Cursor) :
    rounds round next here = (round here fun there =>
      if there.rest.length < here.rest.length then rounds round next there else none).or
          (next here) := by
  rw [rounds]

theorem lazyRounds_eq (round : Cursor → Next σ → Option (Ending σ)) (next : Next σ)
    (here : Cursor) :
    lazyRounds round next here = (next here).or (round here fun there =>
      if there.rest.length < here.rest.length then lazyRounds round next there else none) := by
  rw [lazyRounds]

/-- A run asks only about places that are not before it. -/
theorem run_congr (p : Pattern σ) {here : Cursor} {next next' : Next σ}
    (h : ∀ there : Cursor, there.rest.length ≤ here.rest.length → next there = next' there) :
    p.run here next = p.run here next' := by
  induction p generalizing here next next' with
  | nothing => exact h here (Nat.le_refl _)
  | one accepts =>
    simp only [run]
    split
    · rfl
    · rename_i c rest hr
      rw [h (here.past c rest) (by simp [hr, Cursor.past])]
  | seq first second ihFirst ihSecond =>
    exact ihFirst fun there hThere => ihSecond fun later hLater =>
      h later (Nat.le_trans hLater hThere)
  | alt first second ihFirst ihSecond => simp only [run, ihFirst h, ihSecond h]
  | star body ih =>
    simp only [run]
    induction hn : here.rest.length using Nat.strongRecOn generalizing here with
    | ind n ihn =>
      subst hn
      rw [rounds_eq, rounds_eq, h here (Nat.le_refl _)]
      congr 1
      refine ih fun there _ => ?_
      split
      · rename_i hlt
        exact ihn _ hlt (fun later hl => h later (by omega)) rfl
      · rfl
  | lazyStar body ih =>
    simp only [run]
    induction hn : here.rest.length using Nat.strongRecOn generalizing here with
    | ind n ihn =>
      subst hn
      rw [lazyRounds_eq, lazyRounds_eq, h here (Nat.le_refl _)]
      congr 1
      refine ih fun there _ => ?_
      split
      · rename_i hlt
        exact ihn _ hlt (fun later hl => h later (by omega)) rfl
      · rfl
  | mark name body ih =>
    simp only [run]
    rw [ih fun there hThere => by rw [h there hThere]]
  | wordEdge => simp only [run, h here (Nat.le_refl _)]
  | lineStart => simp only [run, h here (Nat.le_refl _)]

/-- The outlook tells for every character where a run goes on from the place behind it. -/
def Foresees : Pattern σ → Next σ → Cursor → Outlook σ → Prop
  | one _, next, here, ahead => ∀ c rest, here.rest = c :: rest →
      ahead.ending? = next (here.past c rest)
  | seq first second, next, here, ahead =>
    first.Foresees (fun there => second.run there next) here ahead.first ∧
      second.Foresees next here ahead.second
  | alt first second, next, here, ahead =>
    first.Foresees next here ahead.first ∧ second.Foresees next here ahead.second
  | star body, next, here, ahead => body.Foresees (rounds body.run next) here ahead
  | lazyStar body, next, here, ahead => body.Foresees (lazyRounds body.run next) here ahead
  | mark name body, next, here, ahead =>
    body.Foresees (fun there => (next there).map (.markEnd name there)) here ahead
  | nothing, _, _, _ => True
  | wordEdge, _, _, _ => True
  | lineStart, _, _, _ => True

/-- An outlook is about later places only. -/
theorem Foresees.congr {p : Pattern σ} {next next' : Next σ} {here : Cursor} {ahead : Outlook σ}
    (h : ∀ there : Cursor, there.rest.length < here.rest.length → next there = next' there)
    (hp : p.Foresees next here ahead) : p.Foresees next' here ahead := by
  induction p generalizing next next' ahead with
  | one accepts =>
    intro c rest hr
    rw [hp c rest hr, h _ (by simp [hr, Cursor.past])]
  | seq first second ihFirst ihSecond =>
    exact ⟨ihFirst (fun there hThere => run_congr second fun later hLater =>
      h later (by omega)) hp.1, ihSecond h hp.2⟩
  | alt first second ihFirst ihSecond => exact ⟨ihFirst h hp.1, ihSecond h hp.2⟩
  | star body ih =>
    exact ih (fun there hThere => run_congr (star body) fun later hLater => h later (by omega)) hp
  | lazyStar body ih =>
    exact ih (fun there hThere => run_congr (lazyStar body) fun later hLater =>
      h later (by omega)) hp
  | mark name body ih => exact ih (fun there hThere => by rw [h there hThere]) hp
  | nothing => trivial
  | wordEdge => trivial
  | lineStart => trivial

/-- The ending that is foreseen is the one to which a run comes. -/
theorem foresee_fst {p : Pattern σ} {next : Next σ} {here : Cursor} {ahead : Outlook σ}
    (hp : p.Foresees next here ahead) : (p.foresee ahead here (next here)).1 = p.run here next := by
  induction p generalizing next ahead with
  | one accepts =>
    simp only [foresee, run]
    split
    · rename_i hc
      cases hr : here.rest with
      | nil => simp [hr] at hc
      | cons c rest =>
        simp only [hr, List.head?_cons, Option.any_some] at hc
        simp [hc, hp c rest hr]
    · rename_i hc
      cases hr : here.rest with
      | nil => rfl
      | cons c rest =>
        simp only [hr, List.head?_cons, Option.any_some] at hc
        simp [hc]
  | seq first second ihFirst ihSecond =>
    simp only [foresee_seq, run, ihSecond hp.2]
    exact @ihFirst (fun there => second.run there next) ahead.first hp.1
  | alt first second ihFirst ihSecond => simp only [foresee_alt, run, ihFirst hp.1, ihSecond hp.2]
  | star body ih =>
    simp only [foresee_star, run]
    rw [rounds_eq, ← ih (Foresees.congr (fun there hThere => by rw [if_pos hThere]) hp)]
    simp
  | lazyStar body ih =>
    simp only [foresee_lazyStar, run]
    rw [lazyRounds_eq, ← ih (Foresees.congr (fun there hThere => by rw [if_pos hThere]) hp)]
    simp
  | mark name body ih => simp only [foresee, run, ← ih hp]
  | nothing => rfl
  | wordEdge => rfl
  | lineStart => rfl

/-- The outlook that is foreseen holds at the place before. -/
theorem foresees_foresee {p : Pattern σ} {next : Next σ} {before here : Cursor} {ahead : Outlook σ}
    {c : Char} (hb : before.rest = c :: here.rest) (hh : here = before.past c here.rest)
    (hp : p.Foresees next here ahead) :
    p.Foresees next before (p.foresee ahead here (next here)).2 := by
  induction p generalizing next ahead with
  | one accepts =>
    intro d rest hr
    rw [hb, List.cons.injEq] at hr
    obtain ⟨rfl, rfl⟩ := hr
    simp [foresee, ← hh]
  | seq first second ihFirst ihSecond =>
    simp only [foresee_seq, Foresees, Outlook.first_join, Outlook.second_join, foresee_fst hp.2]
    exact ⟨@ihFirst (fun there => second.run there next) ahead.first hp.1, ihSecond hp.2⟩
  | alt first second ihFirst ihSecond =>
    simp only [foresee_alt, Foresees, Outlook.first_join, Outlook.second_join]
    exact ⟨ihFirst hp.1, ihSecond hp.2⟩
  | star body ih =>
    have found := foresee_fst (p := star body) hp
    simp only [foresee_star, run] at found
    simp only [foresee_star, Foresees, found]
    exact ih hp
  | lazyStar body ih =>
    have found := foresee_fst (p := lazyStar body) hp
    simp only [foresee_lazyStar, run] at found
    simp only [foresee_lazyStar, Foresees, found]
    exact ih hp
  | mark name body ih => exact ih hp
  | nothing => trivial
  | wordEdge => trivial
  | lineStart => trivial

/-- Nothing is ahead at the end of a text. -/
theorem foresees_dark {p : Pattern σ} {next : Next σ} {here : Cursor} (h : here.rest = []) :
    p.Foresees next here .dark := by
  induction p generalizing next with
  | one accepts => intro c rest hr; simp [h] at hr
  | seq first second ihFirst ihSecond => exact ⟨ihFirst, ihSecond⟩
  | alt first second ihFirst ihSecond => exact ⟨ihFirst, ihSecond⟩
  | star body ih => exact ih
  | lazyStar body ih => exact ih
  | mark name body ih => exact ih
  | nothing => trivial
  | wordEdge => trivial
  | lineStart => trivial

private theorem foreseeAll_cons (p : Pattern σ) (next : Next σ) (here : Cursor)
    (places : List Cursor) :
    p.foreseeAll next (here :: places) =
      ((p.foresee (p.foreseeAll next places).1 here (next here)).2,
        (p.foresee (p.foreseeAll next places).1 here (next here)).1 ::
          (p.foreseeAll next places).2) := rfl

private theorem foreseeAll_placesFrom (p : Pattern σ) (next : Next σ) {here : Cursor} {t : Text}
    (h : here.rest = t) :
    (p.foreseeAll next (here.placesFrom t)).2 = (here.placesFrom t).map (p.run · next) ∧
      ∀ before c, before.rest = c :: here.rest → here = before.past c here.rest →
        p.Foresees next before (p.foreseeAll next (here.placesFrom t)).1 := by
  induction t generalizing here with
  | nil =>
    have dark : p.Foresees next here .dark := foresees_dark h
    exact ⟨congrArg (· :: []) (foresee_fst dark), fun before c hb hh => foresees_foresee hb hh dark⟩
  | cons d t ih =>
    obtain ⟨later, ahead⟩ := @ih (here.past d t) rfl
    have ahead := ahead here d h rfl
    rw [Cursor.placesFrom, foreseeAll_cons, later, foresee_fst ahead]
    exact ⟨rfl, fun before c hb hh => foresees_foresee hb hh ahead⟩

/-- The endings that are foreseen at the places of a text are those to which runs come. -/
theorem foreseeAll_eq_run (p : Pattern σ) (next : Next σ) (t : Text) :
    (p.foreseeAll next (Cursor.places t)).2 = (Cursor.places t).map (p.run · next) :=
  (foreseeAll_placesFrom p next rfl).1

end SourceSurvey.Pattern
