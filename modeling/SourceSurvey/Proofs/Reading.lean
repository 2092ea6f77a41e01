import SourceSurvey.Pattern.Search
import Mathlib.Data.List.Basic

/-! Readings: the ways that a run may take. A reading leads from a place to a later one and says
which ending it makes there of the ending of what follows. A run finds the ending of some reading,
and it finds one whenever there is a reading to a place from which there is an ending, so what a run
cannot find is told by readings alone, whatever is tried first. -/

namespace SourceSurvey

open Text

namespace Cursor

/-- The place behind a text that is read here, given the text that is left. -/
def beyond (here : Cursor) (w rest : Text) : Cursor :=
  ⟨w.reverse ++ here.before, here.offset + byteLength w, rest⟩

@[simp] theorem rest_beyond (here : Cursor) (w rest : Text) : (here.beyond w rest).rest = rest :=
  rfl

@[simp] theorem before_beyond (here : Cursor) (w rest : Text) :
    (here.beyond w rest).before = w.reverse ++ here.before := rfl

@[simp] theorem beyond_beyond (here : Cursor) (v w mid rest : Text) :
    (here.beyond v mid).beyond w rest = here.beyond (v ++ w) rest := by
  simp [beyond, byteLength_append, Nat.add_assoc]

theorem beyond_nil (here : Cursor) : here.beyond [] here.rest = here := rfl

theorem past_eq_beyond (here : Cursor) (c : Char) (rest : Text) :
    here.past c rest = here.beyond [c] rest := rfl

/-- Reading over a text stays in the text. -/
theorem IsIn.beyond {here : Cursor} {t w rest : Text} (h : here.IsIn t)
    (hr : here.rest = w ++ rest) :
    (here.beyond w rest).IsIn t := by
  obtain ⟨ht, ho⟩ := h
  refine ⟨by simp [← ht, hr], ?_⟩
  simp [Cursor.beyond, byteLength_append, ho]

/-- Two places of a text with one offset are one place. -/
theorem IsIn.ext {a b : Cursor} {t : Text} (ha : a.IsIn t) (hb : b.IsIn t)
    (ho : a.offset = b.offset) : a = b := by
  have hbefore : a.before = b.before := by rw [ha.before_eq, hb.before_eq, ho]
  have hrest : a.rest = b.rest := by
    have h : a.before.reverse ++ a.rest = b.before.reverse ++ b.rest := by rw [ha.1, hb.1]
    rw [hbefore] at h
    exact List.append_cancel_left h
  cases a
  cases b
  simp_all

end Cursor

namespace Pattern

variable {σ : Type}

/-- Reading a pattern leads from a place, with an ending there, to a place behind what was read,
with the ending that what follows has there. -/
inductive Leads : Pattern σ → Cursor → Ending σ → Cursor → Ending σ → Prop where
  | nothing {here e} : Leads .nothing here e here e
  | one {accepts here e c rest} (ha : accepts c = true) (hr : here.rest = c :: rest) :
    Leads (.one accepts) here e (here.past c rest) e
  | seq {first second here e mid m there e'} (h : Leads first here e mid m)
      (h' : Leads second mid m there e') :
    Leads (.seq first second) here e there e'
  | left {first second here e there e'} (h : Leads first here e there e') :
    Leads (.alt first second) here e there e'
  | right {first second here e there e'} (h : Leads second here e there e') :
    Leads (.alt first second) here e there e'
  | starDone {body here e} : Leads (.star body) here e here e
  | starRound {body here e mid m there e'} (h : Leads body here e mid m)
    (hl : mid.rest.length < here.rest.length) (h' : Leads (.star body) mid m there e') :
    Leads (.star body) here e there e'
  | lazyDone {body here e} : Leads (.lazyStar body) here e here e
  | lazyRound {body here e mid m there e'} (h : Leads body here e mid m)
    (hl : mid.rest.length < here.rest.length) (h' : Leads (.lazyStar body) mid m there e') :
    Leads (.lazyStar body) here e there e'
  | mark {name body here e there e'} (h : Leads body here e there (.markEnd name there e')) :
    Leads (.mark name body) here (.markBegin name here e) there e'
  | wordEdge {here e} (h : here.atWordEdge = true) : Leads .wordEdge here e here e
  | lineStart {here e} (h : here.atLineStart = true) : Leads .lineStart here e here e

variable {p : Pattern σ} {here there : Cursor} {e e' : Ending σ} {next : Next σ}

/-- A run that finds an ending has found it by a reading. -/
theorem exists_leads_of_run (h : p.run here next = some e) :
    ∃ there e', next there = some e' ∧ p.Leads here e there e' := by
  induction p generalizing here next e with
  | nothing => exact ⟨here, e, h, .nothing⟩
  | one accepts =>
    simp only [run] at h
    split at h
    · exact absurd h (by simp)
    · rename_i c rest hr
      split at h
      · exact ⟨_, e, h, .one ‹_› hr⟩
      · exact absurd h (by simp)
  | seq first second ihFirst ihSecond =>
    obtain ⟨mid, m, hm, hFirst⟩ := ihFirst h
    obtain ⟨there, e', he, hSecond⟩ := ihSecond hm
    exact ⟨there, e', he, .seq hFirst hSecond⟩
  | alt first second ihFirst ihSecond =>
    rcases Option.or_eq_some_iff.mp h with h | ⟨-, h⟩
    · obtain ⟨there, e', he, hl⟩ := ihFirst h
      exact ⟨there, e', he, .left hl⟩
    · obtain ⟨there, e', he, hl⟩ := ihSecond h
      exact ⟨there, e', he, .right hl⟩
  | star body ih =>
    simp only [run] at h
    induction hn : here.rest.length using Nat.strongRecOn generalizing here e with
    | ind n ihn =>
      subst hn
      rw [rounds_eq] at h
      rcases Option.or_eq_some_iff.mp h with h | ⟨-, h⟩
      · obtain ⟨mid, m, hm, hl⟩ := ih h
        split at hm
        · obtain ⟨there, e', he, hRest⟩ := ihn _ ‹_› hm rfl
          exact ⟨there, e', he, .starRound hl ‹_› hRest⟩
        · exact absurd hm (by simp)
      · exact ⟨here, e, h, .starDone⟩
  | lazyStar body ih =>
    simp only [run] at h
    induction hn : here.rest.length using Nat.strongRecOn generalizing here e with
    | ind n ihn =>
      subst hn
      rw [lazyRounds_eq] at h
      rcases Option.or_eq_some_iff.mp h with h | ⟨-, h⟩
      · exact ⟨here, e, h, .lazyDone⟩
      · obtain ⟨mid, m, hm, hl⟩ := ih h
        split at hm
        · obtain ⟨there, e', he, hRest⟩ := ihn _ ‹_› hm rfl
          exact ⟨there, e', he, .lazyRound hl ‹_› hRest⟩
        · exact absurd hm (by simp)
  | mark name body ih =>
    obtain ⟨b, hb, rfl⟩ := Option.map_eq_some_iff.mp h
    obtain ⟨there, e', he, hl⟩ := ih hb
    obtain ⟨after, ha, rfl⟩ := Option.map_eq_some_iff.mp he
    exact ⟨there, after, ha, .mark hl⟩
  | wordEdge =>
    simp only [run] at h
    split at h
    · exact ⟨here, e, h, .wordEdge ‹_›⟩
    · exact absurd h (by simp)
  | lineStart =>
    simp only [run] at h
    split at h
    · exact ⟨here, e, h, .lineStart ‹_›⟩
    · exact absurd h (by simp)

/-- A run finds an ending where a reading leads to a place from which there is one. -/
theorem Leads.isSome_run (h : p.Leads here e there e') (hn : (next there).isSome = true) :
    (p.run here next).isSome = true := by
  induction h generalizing next with
  | nothing => exact hn
  | one ha hr => simpa [run, hr, ha] using hn
  | seq _ _ ih ih' => exact ih (ih' hn)
  | left _ ih => simp [run, ih hn]
  | right _ ih => simp [run, ih hn]
  | starDone =>
    rw [run, rounds_eq]
    simp [hn]
  | starRound _ hl _ ih ih' =>
    have found := ih' hn
    rw [run] at found
    rw [run, rounds_eq, Option.isSome_or, Bool.or_eq_true]
    exact .inl (ih (by rwa [if_pos hl]))
  | lazyDone =>
    rw [run, lazyRounds_eq]
    simp [hn]
  | lazyRound _ hl _ ih ih' =>
    have found := ih' hn
    rw [run] at found
    rw [run, lazyRounds_eq, Option.isSome_or, Bool.or_eq_true]
    exact .inr (ih (by rwa [if_pos hl]))
  | mark _ ih =>
    simp only [run, Option.isSome_map]
    exact ih (by simpa using hn)
  | wordEdge h => simpa [run, h] using hn
  | lineStart h => simpa [run, h] using hn

/-- A run comes to an end exactly where some reading leads to a place from which what follows does.
-/
theorem isSome_run_iff : (p.run here next).isSome = true ↔
    ∃ there e e', p.Leads here e there e' ∧ (next there).isSome = true := by
  constructor
  · intro h
    obtain ⟨e, he⟩ := Option.isSome_iff_exists.mp h
    obtain ⟨there, e', hn, hl⟩ := exists_leads_of_run he
    exact ⟨there, e, e', hl, Option.isSome_of_eq_some hn⟩
  · rintro ⟨there, e, e', hl, hn⟩
    exact hl.isSome_run hn

/-- A reading ends behind the text that it read. -/
theorem Leads.exists_beyond (h : p.Leads here e there e') :
    ∃ w, here.rest = w ++ there.rest ∧ there = here.beyond w there.rest := by
  induction h with
  | one _ hr => exact ⟨[_], hr, rfl⟩
  | seq _ _ ih ih' | starRound _ _ _ ih ih' | lazyRound _ _ _ ih ih' =>
    obtain ⟨v, hv, hm⟩ := ih
    obtain ⟨w, hw, ht⟩ := ih'
    refine ⟨v ++ w, by rw [hv, hw, List.append_assoc], ?_⟩
    rw [ht, hm, Cursor.beyond_beyond]
    rfl
  | left _ ih | right _ ih | mark _ ih => exact ih
  | nothing | starDone | lazyDone | wordEdge | lineStart => exact ⟨[], rfl, rfl⟩

theorem Leads.eq_beyond (h : p.Leads here e there e') {w : Text}
    (hw : here.rest = w ++ there.rest) :
    there = here.beyond w there.rest := by
  obtain ⟨v, hv, ht⟩ := h.exists_beyond
  rw [hv] at hw
  rwa [← List.append_cancel_right hw]

theorem Leads.isIn {t : Text} (h : p.Leads here e there e') (ht : here.IsIn t) : there.IsIn t := by
  obtain ⟨w, hw, ho⟩ := h.exists_beyond
  rw [ho]
  exact ht.beyond hw

/-! ### Marks -/

/-- The names that a pattern marks. -/
def marks : Pattern σ → List σ
  | seq first second => first.marks ++ second.marks
  | alt first second => first.marks ++ second.marks
  | star body => body.marks
  | lazyStar body => body.marks
  | mark name body => name :: body.marks
  | _ => []

section Lookup

variable [DecidableEq σ] {name : σ}

/-- A pattern says nothing about a part that it does not mark. -/
theorem Leads.lookup_of_notMem (h : p.Leads here e there e') (hn : name ∉ p.marks) :
    e.begins.lookup name = e'.begins.lookup name ∧ e.ends.lookup name = e'.ends.lookup name := by
  induction h with
  | seq _ _ ih ih' =>
    rw [marks, List.mem_append, not_or] at hn
    exact ⟨(ih hn.1).1.trans (ih' hn.2).1, (ih hn.1).2.trans (ih' hn.2).2⟩
  | starRound _ _ _ ih ih' | lazyRound _ _ _ ih ih' =>
    exact ⟨(ih hn).1.trans (ih' hn).1, (ih hn).2.trans (ih' hn).2⟩
  | left _ ih =>
    rw [marks, List.mem_append, not_or] at hn
    exact ih hn.1
  | right _ ih =>
    rw [marks, List.mem_append, not_or] at hn
    exact ih hn.2
  | mark _ ih =>
    rw [marks, List.mem_cons, not_or] at hn
    have hne := beq_false_of_ne hn.1
    obtain ⟨hb, he⟩ := ih hn.2
    simp only [Ending.markBegin, Ending.markEnd, List.lookup_cons, hne] at hb he ⊢
    exact ⟨hb, he⟩
  | _ => exact ⟨rfl, rfl⟩

/-- An ending marks a part at a stretch of the text. -/
def Ending.Marks (e : Ending σ) (name : σ) (s : Span) : Prop :=
  e.begins.lookup name = some s.first ∧ e.ends.lookup name = some s.last

theorem Match.span?_of_marks {m : Match σ} {s : Span} (h : m.ending.Marks name s) :
    m.span? name = some s := by
  rw [Match.span?, h.1, h.2]
  rfl

theorem Leads.marks_iff {s : Span} (h : p.Leads here e there e') (hn : name ∉ p.marks) :
    e.Marks name s ↔ e'.Marks name s := by
  obtain ⟨hb, he⟩ := h.lookup_of_notMem hn
  rw [Ending.Marks, Ending.Marks, hb, he]

/-- A marked part begins and ends where it was read. -/
theorem Leads.marks_mark {body : Pattern σ} (h : (Pattern.mark name body).Leads here e there e')
    (hn : name ∉ body.marks) : e.Marks name ⟨here, there⟩ := by
  cases h with
  | mark h =>
    obtain ⟨-, he⟩ := h.lookup_of_notMem hn
    constructor
    · simp [Ending.markBegin]
    · simp only [Ending.markBegin, Ending.markEnd, List.lookup_cons, beq_self_eq_true] at he ⊢
      exact he

end Lookup

/-! ### Readings of common patterns -/

theorem leads_all_cons {ps : List (Pattern σ)} :
    (all (p :: ps)).Leads here e there e' ↔ ∃ mid m, p.Leads here e mid m ∧
      (all ps).Leads mid m there e' := by
  cases ps with
  | nil =>
    constructor
    · exact fun h => ⟨there, e', h, .nothing⟩
    · rintro ⟨mid, m, h, h'⟩
      cases h'
      exact h
  | cons q ps =>
    constructor
    · intro h
      cases h with
      | seq h h' => exact ⟨_, _, h, h'⟩
    · rintro ⟨mid, m, h, h'⟩
      exact .seq h h'

theorem leads_any {ps : List (Pattern σ)} :
    (any ps).Leads here e there e' ↔ ∃ p ∈ ps, p.Leads here e there e' := by
  induction ps with
  | nil =>
    constructor
    · intro h
      cases h with
      | one ha => exact absurd ha (by simp)
    · rintro ⟨p, hp, -⟩
      exact absurd hp List.not_mem_nil
  | cons p ps ih =>
    cases ps with
    | nil => simp [any]
    | cons q ps =>
      rw [List.exists_mem_cons_iff, ← ih]
      constructor
      · intro h
        cases h with
        | left h => exact .inl h
        | right h => exact .inr h
      · rintro (h | h)
        · exact .left h
        · exact .right h

theorem leads_one {accepts : Char → Bool} (h : (one accepts).Leads here e there e') :
    ∃ c, accepts c = true ∧ here.rest = c :: there.rest ∧ e = e' := by
  cases h with
  | one ha hr => exact ⟨_, ha, hr, rfl⟩

theorem leads_sign {c : Char} (h : (sign c).Leads here e there e') :
    here.rest = c :: there.rest ∧ e = e' := by
  obtain ⟨d, hd, hr, he⟩ := leads_one h
  rw [decide_eq_true_eq] at hd
  exact ⟨hd ▸ hr, he⟩

theorem leads_literal {t : Text} (h : (literal t).Leads here e there e') :
    here.rest = t ++ there.rest ∧ e = e' := by
  induction t generalizing here e with
  | nil =>
    cases h
    exact ⟨rfl, rfl⟩
  | cons c t ih =>
    obtain ⟨mid, m, hc, ht⟩ := leads_all_cons.mp h
    obtain ⟨hr, rfl⟩ := leads_sign hc
    obtain ⟨hr', rfl⟩ := ih ht
    exact ⟨by rw [hr, hr']; rfl, rfl⟩

theorem leads_oneOf {words : List Text} (h : (oneOf words).Leads here e there e') :
    ∃ w ∈ words, here.rest = w ++ there.rest ∧ e = e' := by
  obtain ⟨p, hp, h⟩ := leads_any.mp h
  obtain ⟨w, hw, rfl⟩ := List.mem_map.mp hp
  exact ⟨w, hw, leads_literal h⟩

theorem leads_star_one {accepts : Char → Bool} (h : (star (one accepts)).Leads here e there e') :
    ∃ w, (∀ c ∈ w, accepts c = true) ∧ here.rest = w ++ there.rest ∧ e = e' := by
  generalize hp : star (one accepts) = p at h
  induction h with
  | starDone => exact ⟨[], by simp, rfl, rfl⟩
  | starRound h _ _ _ ih =>
    cases hp
    obtain ⟨c, hc, hr, rfl⟩ := leads_one h
    obtain ⟨w, hw, hr', rfl⟩ := ih rfl
    exact ⟨c :: w, by simpa using ⟨hc, hw⟩, by rw [hr, hr']; rfl, rfl⟩
  | _ => cases hp

theorem leads_lazyStar_one {accepts : Char → Bool}
    (h : (lazyStar (one accepts)).Leads here e there e') :
    ∃ w, (∀ c ∈ w, accepts c = true) ∧ here.rest = w ++ there.rest ∧ e = e' := by
  generalize hp : lazyStar (one accepts) = p at h
  induction h with
  | lazyDone => exact ⟨[], by simp, rfl, rfl⟩
  | lazyRound h _ _ _ ih =>
    cases hp
    obtain ⟨c, hc, hr, rfl⟩ := leads_one h
    obtain ⟨w, hw, hr', rfl⟩ := ih rfl
    exact ⟨c :: w, by simpa using ⟨hc, hw⟩, by rw [hr, hr']; rfl, rfl⟩
  | _ => cases hp

theorem leads_lazyPlus_one {accepts : Char → Bool}
    (h : (lazyPlus (one accepts)).Leads here e there e') :
    ∃ w, w ≠ [] ∧ (∀ c ∈ w, accepts c = true) ∧ here.rest = w ++ there.rest ∧ e = e' := by
  cases h with
  | seq h h' =>
    obtain ⟨c, hc, hr, rfl⟩ := leads_one h
    obtain ⟨w, hw, hr', rfl⟩ := leads_lazyStar_one h'
    exact ⟨c :: w, by simp, List.forall_mem_cons.mpr ⟨hc, hw⟩, by rw [hr, hr']; rfl, rfl⟩

/-! ### Texts that can be read -/

variable {accepts : Char → Bool} {t w rest : Text}

theorem Leads.literal (hr : here.rest = t ++ rest) :
    (literal t : Pattern σ).Leads here e (here.beyond t rest) e := by
  induction t generalizing here with
  | nil =>
    rw [List.nil_append] at hr
    subst hr
    exact .nothing
  | cons c t ih =>
    have later : (Pattern.literal t : Pattern σ).Leads (here.beyond [c] (t ++ rest)) e _ e := ih rfl
    rw [Cursor.beyond_beyond] at later
    exact leads_all_cons.mpr ⟨_, _, .one (by simp) hr, later⟩

theorem Leads.star_one (hw : ∀ c ∈ w, accepts c = true) (hr : here.rest = w ++ rest) :
    (star (.one accepts) : Pattern σ).Leads here e (here.beyond w rest) e := by
  induction w generalizing here with
  | nil =>
    rw [List.nil_append] at hr
    subst hr
    exact .starDone
  | cons c w ih =>
    obtain ⟨hc, hw⟩ := List.forall_mem_cons.mp hw
    have later : (star (.one accepts) : Pattern σ).Leads (here.beyond [c] (w ++ rest)) e _ e :=
      ih hw rfl
    rw [Cursor.beyond_beyond] at later
    exact .starRound (.one hc hr) (by simp [hr, Cursor.past]) later

theorem Leads.lazyStar_one (hw : ∀ c ∈ w, accepts c = true) (hr : here.rest = w ++ rest) :
    (lazyStar (.one accepts) : Pattern σ).Leads here e (here.beyond w rest) e := by
  induction w generalizing here with
  | nil =>
    rw [List.nil_append] at hr
    subst hr
    exact .lazyDone
  | cons c w ih =>
    obtain ⟨hc, hw⟩ := List.forall_mem_cons.mp hw
    have later : (lazyStar (.one accepts) : Pattern σ).Leads (here.beyond [c] (w ++ rest)) e _ e :=
      ih hw rfl
    rw [Cursor.beyond_beyond] at later
    exact .lazyRound (.one hc hr) (by simp [hr, Cursor.past]) later

theorem Leads.plus_one (hw : ∀ c ∈ w, accepts c = true) (hn : w ≠ []) (hr : here.rest = w ++ rest) :
    (plus (.one accepts) : Pattern σ).Leads here e (here.beyond w rest) e := by
  obtain ⟨c, w, rfl⟩ := List.exists_cons_of_ne_nil hn
  obtain ⟨hc, hw⟩ := List.forall_mem_cons.mp hw
  have later : (star (.one accepts) : Pattern σ).Leads (here.beyond [c] (w ++ rest)) e _ e :=
    .star_one hw rfl
  rw [Cursor.beyond_beyond] at later
  exact .seq (.one hc hr) later

theorem Leads.lazyPlus_one (hw : ∀ c ∈ w, accepts c = true) (hn : w ≠ [])
    (hr : here.rest = w ++ rest) :
    (lazyPlus (.one accepts) : Pattern σ).Leads here e (here.beyond w rest) e := by
  obtain ⟨c, w, rfl⟩ := List.exists_cons_of_ne_nil hn
  obtain ⟨hc, hw⟩ := List.forall_mem_cons.mp hw
  have later : (lazyStar (.one accepts) : Pattern σ).Leads (here.beyond [c] (w ++ rest)) e _ e :=
    .lazyStar_one hw rfl
  rw [Cursor.beyond_beyond] at later
  exact .seq (.one hc hr) later

end Pattern

end SourceSurvey
