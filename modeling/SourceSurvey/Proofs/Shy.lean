import SourceSurvey.Proofs.Member
import SourceSurvey.Source.Grammar

/-! Where a header cannot begin. A shy pattern comes to no ending in front of some characters,
whatever follows it: it reads something, and what it can read first is none of them. The patterns of
types and members are shy of every character that stands in no word and is neither an angle bracket
nor an at sign. -/

namespace SourceSurvey

open Text

namespace Pattern

variable {σ : Type} {p q : Pattern σ} {ps : List (Pattern σ)} {N : Next σ} {here : Cursor}
  {bad : Char → Bool} {accepts : Char → Bool} {c : Char} {t rest : Text}

/-- What comes to no ending in front of some characters. -/
def Shuns (bad : Char → Bool) (N : Next σ) : Prop :=
  ∀ here, here.rest.head?.any bad = true → N here = none

/-- A pattern of which no reading begins with one of some characters. -/
def Shy (bad : Char → Bool) (p : Pattern σ) : Prop :=
  ∀ (N : Next σ) here, here.rest.head?.any bad = true → p.run here N = none

theorem Shy.shuns (h : Shy bad p) (N : Next σ) : Shuns bad (p.run · N) := h N

theorem shy_one (h : ∀ c, bad c = true → accepts c = false) :
    Shy bad (one accepts : Pattern σ) := by
  intro N here hb
  cases hr : here.rest with
  | nil => exact run_one_nil hr
  | cons c rest =>
    rw [hr] at hb
    rw [run_one_cons hr, h c (by simpa using hb), if_neg (by simp)]

theorem shy_sign (h : bad c = false) : Shy bad (sign c : Pattern σ) :=
  shy_one fun d hd => decide_eq_false fun he => by
    rw [he, h] at hd
    exact absurd hd (by simp)

theorem Shy.seq (h : Shy bad p) : Shy bad (seq p q) := fun _ => h _

theorem Shy.all_cons (h : Shy bad p) : Shy bad (all (p :: ps)) := by
  intro N here hb
  rw [run_all_cons]
  exact h _ here hb

theorem Shy.alt (hp : Shy bad p) (hq : Shy bad q) : Shy bad (alt p q) := fun N here hb =>
  Option.or_eq_none_iff.mpr ⟨hp N here hb, hq N here hb⟩

theorem Shy.mark {name : σ} (h : Shy bad p) : Shy bad (mark name p) := fun _ here hb =>
  Option.map_eq_none_iff.mpr (h _ here hb)

theorem shy_any (h : ∀ p ∈ ps, Shy bad p) : Shy bad (any ps) := by
  induction ps with
  | nil => exact shy_one fun _ _ => rfl
  | cons p ps ih =>
    intro N here hb
    rw [run_any_cons, h p List.mem_cons_self N here hb, Option.none_or]
    exact ih (fun q hq => h q (List.mem_cons_of_mem p hq)) N here hb

theorem shy_literal (hn : t ≠ [])
    (h : t.head?.any bad = false) : Shy bad (literal t : Pattern σ) := by
  obtain ⟨c, t, rfl⟩ := List.exists_cons_of_ne_nil hn
  have first : Shy bad (sign c : Pattern σ) := shy_sign (by simpa using h)
  exact first.all_cons

theorem shy_oneOf {words : List Text} (h : ∀ w ∈ words, w ≠ [] ∧ w.head?.any bad = false) :
    Shy bad (oneOf words : Pattern σ) := by
  refine shy_any fun p hp => ?_
  obtain ⟨w, hw, rfl⟩ := List.mem_map.mp hp
  exact shy_literal (h w hw).1 (h w hw).2

theorem shy_wordEdge (h : Shy bad (all ps)) : Shy bad (all (wordEdge :: ps)) := by
  intro N here hb
  rw [run_all_cons, run, h N here hb, ite_self]

theorem Shy.optional_cons (hp : Shy bad p) (h : Shy bad (all ps)) :
    Shy bad (all (optional p :: ps)) := by
  intro N here hb
  rw [run_all_cons, run_optional, hp _ here hb, Option.none_or]
  exact h N here hb

/-- Rounds that cannot begin here are none. -/
theorem Shy.run_star (h : Shy bad p) (N : Next σ) (hb : here.rest.head?.any bad = true) :
    (star p).run here N = N here := by
  rw [run, Pattern.rounds_eq, h _ here hb, Option.none_or]

theorem Shy.mark_star_cons {name : σ} (hp : Shy bad p) (h : Shy bad (all ps)) :
    Shy bad (all (Pattern.mark name (star p) :: ps)) := by
  intro N here hb
  rw [run_all_cons, run, hp.run_star _ hb, h N here hb]
  rfl

end Pattern

namespace Source

open Pattern

variable {bad : Char → Bool}

/-- Characters that begin no part of a header. -/
structure Outside (bad : Char → Bool) : Prop where
  word : ∀ c, isWord c = true → bad c = false
  angle : bad '<' = false
  at_sign : bad '@' = false

theorem outside_isBlank : Outside isBlank := ⟨fun _ => isBlank_of_isWord, by decide, by decide⟩

section Patterns

variable (ho : Outside bad) {words : List Text} {ps : List (Pattern Slot)}
include ho

theorem shy_words (hw : ∀ w ∈ words, w.head?.any isWord = true) :
    Shy bad (oneOf words : Pattern Slot) := by
  refine shy_oneOf fun w hm => ?_
  have first := hw w hm
  cases w with
  | nil => exact absurd first (by simp)
  | cons c w => exact ⟨by simp, by simpa using ho.word c (by simpa using first)⟩

theorem shy_modifierRound (hw : ∀ w ∈ words, w.head?.any isWord = true) :
    Shy bad (modifierRound words) :=
  shy_wordEdge (shy_words ho hw).all_cons

theorem shy_modifierRun (hw : ∀ w ∈ words, w.head?.any isWord = true) (h : Shy bad (all ps)) :
    Shy bad (all (modifierRun words :: ps)) :=
  (shy_modifierRound ho hw).mark_star_cons h

theorem shy_nameStart : Shy bad (one isNameStart : Pattern Slot) := by
  refine shy_one fun c hc => ?_
  by_contra hn
  rw [ho.word c (isWord_of_isNameStart (by simpa using hn))] at hc
  exact absurd hc (by simp)

theorem shy_named : Shy bad named := (shy_nameStart ho).seq.mark

theorem shy_angleGroup (barred : Text) : Shy bad (angleGroup barred) := (shy_sign ho.angle).all_cons

theorem CSharp.shy_kindPattern : Shy bad CSharp.kindPattern := by
  have word : ∀ t : Text, t.head?.any isWord = true →
      Shy bad (literal t : Pattern Slot) := fun t ht => by
    have word : Shy bad (oneOf [t] : Pattern Slot) :=
      shy_words ho fun w hm => by rwa [List.mem_singleton.mp hm]
    exact word
  refine (shy_any fun p hp => ?_).mark
  simp only [List.mem_cons, List.not_mem_nil, or_false] at hp
  rcases hp with rfl | rfl | rfl | rfl | rfl
  · exact word _ (by decide)
  · exact word _ (by decide)
  · exact word _ (by decide)
  · exact word _ (by decide)
  · exact (word _ (by decide)).seq

theorem CSharp.shy_typePattern : Shy bad CSharp.typePattern :=
  shy_modifierRun ho (by decide) (shy_wordEdge (CSharp.shy_kindPattern ho).all_cons)

theorem CSharp.shy_methodPattern : Shy bad CSharp.methodPattern :=
  shy_modifierRun ho (by decide) (shy_wordEdge (shy_nameStart ho).seq.mark.all_cons)

theorem CSharp.shy_constructorPattern : Shy bad CSharp.constructorPattern :=
  shy_modifierRun ho (by decide) (shy_wordEdge (shy_named ho).all_cons)

theorem Java.shy_kindPattern : Shy bad Java.kindPattern := by
  have words :
      Shy bad (all [oneOf ["interface".toList, "enum".toList, "record".toList, "class".toList]] :
        Pattern Slot) :=
    (shy_words ho (by decide)).all_cons
  exact ((shy_literal (by decide) (by simpa using ho.at_sign)).alt (shy_wordEdge words)).mark

theorem Java.shy_typePattern : Shy bad Java.typePattern :=
  shy_modifierRun ho (by decide) (Java.shy_kindPattern ho).all_cons

theorem Java.shy_memberTypeParameters (h : Shy bad (all ps)) :
    Shy bad (all (Java.memberTypeParameters :: ps)) :=
  (shy_angleGroup ho _).seq.mark.optional_cons h

theorem Java.shy_methodPattern : Shy bad Java.methodPattern :=
  shy_modifierRun ho (by decide)
    (Java.shy_memberTypeParameters ho (shy_wordEdge (shy_nameStart ho).seq.mark.all_cons))

theorem Java.shy_constructorPattern : Shy bad Java.constructorPattern :=
  shy_modifierRun ho (by decide)
    (Java.shy_memberTypeParameters ho (shy_wordEdge (shy_named ho).all_cons))

end Patterns

end Source

end SourceSurvey
