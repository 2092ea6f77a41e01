import SourceSurvey.Proofs.Preference
import SourceSurvey.Proofs.Words
import SourceSurvey.Source.Header

/-! Parts of member headers. Each part of the patterns of methods and constructors is read in one of
two ways here: what a reading of it says about the text, and which place a run prefers on a text
that is written as the part wants it. -/

namespace SourceSurvey.Source

open Text Pattern

variable {here there : Cursor} {e e' : Ending Slot} {next : Next Slot} {b w rest : Text}

/-! ### Blanks and names -/

theorem prefers_blanks (hb : Blank b) (hr : here.rest = b ++ rest)
    (hs : ∀ c ∈ rest.head?, isBlank c = false) :
    (blanks : Pattern Slot).Prefers here (here.beyond b rest) :=
  prefers_star_one hb hr hs

theorem prefers_someBlanks (hb : Blank b) (hn : b ≠ []) (hr : here.rest = b ++ rest)
    (hs : ∀ c ∈ rest.head?, isBlank c = false) :
    (someBlanks : Pattern Slot).Prefers here (here.beyond b rest) :=
  prefers_plus_one hb hn hr hs

theorem leads_blanks (h : (blanks : Pattern Slot).Leads here e there e') :
    ∃ b, Blank b ∧ here.rest = b ++ there.rest ∧ e = e' :=
  leads_star_one h

theorem leads_someBlanks (h : (someBlanks : Pattern Slot).Leads here e there e') :
    ∃ b, Blank b ∧ b ≠ [] ∧ here.rest = b ++ there.rest ∧ e = e' := by
  cases h with
  | seq h h' =>
    obtain ⟨c, hc, hr, rfl⟩ := leads_one h
    obtain ⟨b, hb, hr', rfl⟩ := leads_blanks h'
    refine ⟨c :: b, ?_, by simp, by rw [hr, hr']; rfl, rfl⟩
    simpa [Blank] using ⟨hc, hb⟩

/-- Whether a text is a letter or underscore with word characters behind it. -/
def isIdentifier : Text → Bool
  | [] => false
  | c :: w => isNameStart c && w.all isWord

theorem isWord_of_isIdentifier (h : isIdentifier w = true) : ∀ c ∈ w, isWord c = true := by
  cases w with
  | nil => exact absurd h (by simp [isIdentifier])
  | cons d w =>
    rw [isIdentifier, Bool.and_eq_true, List.all_eq_true] at h
    intro c hc
    rcases List.mem_cons.mp hc with rfl | hc
    · exact isWord_of_isNameStart h.1
    · exact h.2 c hc

theorem solid_of_isIdentifier (h : isIdentifier w = true) : Solid w :=
  fun c hc => isBlank_of_isWord (isWord_of_isIdentifier h c hc)

theorem ne_nil_of_isIdentifier (h : isIdentifier w = true) : w ≠ [] := by
  rintro rfl
  exact absurd h (by simp [isIdentifier])

theorem words_of_isIdentifier (h : isIdentifier w = true) : words w = [w] :=
  words_solid (solid_of_isIdentifier h) (ne_nil_of_isIdentifier h)

theorem prefers_identifier (hw : isIdentifier w = true) (hr : here.rest = w ++ rest)
    (hs : ∀ c ∈ rest.head?, isWord c = false) :
    (identifier : Pattern Slot).Prefers here (here.beyond w rest) := by
  cases w with
  | nil => exact absurd hw (by simp [isIdentifier])
  | cons c w =>
    rw [isIdentifier, Bool.and_eq_true, List.all_eq_true] at hw
    have later : (star (one isWord) : Pattern Slot).Prefers (here.beyond [c] (w ++ rest)) _ :=
      prefers_star_one hw.2 rfl hs
    rw [Cursor.beyond_beyond] at later
    exact (prefers_one hw.1 hr).seq later

theorem leads_identifier (h : (identifier : Pattern Slot).Leads here e there e') :
    ∃ w, isIdentifier w = true ∧ here.rest = w ++ there.rest ∧ e = e' := by
  cases h with
  | seq h h' =>
    obtain ⟨c, hc, hr, rfl⟩ := leads_one h
    obtain ⟨w, hw, hr', rfl⟩ := leads_star_one h'
    refine ⟨c :: w, ?_, by rw [hr, hr']; rfl, rfl⟩
    rw [isIdentifier, hc, Bool.true_and, List.all_eq_true]
    exact hw

theorem leads_named (h : named.Leads here e there e') :
    ∃ w, isIdentifier w = true ∧ here.rest = w ++ there.rest ∧ e = e'.marked .name here there := by
  cases h with
  | mark h =>
    obtain ⟨w, hw, hr, rfl⟩ := leads_identifier h
    exact ⟨w, hw, hr, rfl⟩

/-- The edge in front of a word that stands behind no word. -/
theorem atWordEdge_of_word (hb : here.before.head?.any isWord = false)
    (hr : here.rest.head?.any isWord = true) :
    here.atWordEdge = true := by
  rw [Cursor.atWordEdge, hb, hr]
  rfl

theorem before_beyond_of_getLast (hl : ∀ c ∈ w.getLast?, isWord c = false)
    (hb : here.before.head?.any isWord = false) :
    (here.beyond w rest).before.head?.any isWord = false := by
  rw [Cursor.before_beyond, List.head?_append, List.head?_reverse]
  cases hw : w.getLast? with
  | none => exact hb
  | some c =>
    rw [hw] at hl
    exact hl c rfl

theorem isWord_of_isBlank {c : Char} (h : isBlank c = true) : isWord c = false := by
  cases hw : isWord c with
  | false => rfl
  | true => rw [isBlank_of_isWord hw] at h; exact h.symm

/-- No word goes on over blanks or a sign. -/
theorem head?_blank_append_sign {c : Char} (hb : Blank b) (hc : isWord c = false) (rest : Text) :
    ∀ d ∈ (b ++ c :: rest).head?, isWord d = false := by
  cases b with
  | nil =>
    intro d hd
    rwa [← Option.mem_some_iff.mp hd]
  | cons a b =>
    intro d hd
    rw [← Option.mem_some_iff.mp hd]
    exact isWord_of_isBlank (hb a List.mem_cons_self)

/-! ### Modifiers -/

/-- Words of which none begins another, and which begin with a word character and hold no blank. -/
structure KeyWords (words : List Text) : Prop where
  starts : ∀ w ∈ words, w.head?.any isWord = true
  solid : ∀ w ∈ words, Solid w
  free : ∀ v ∈ words, ∀ w ∈ words, v <+: w → v = w

/-- One of some words and the blanks behind it, where a word begins. -/
def modifierRound (words : List Text) : Pattern Slot := all [wordEdge, oneOf words, someBlanks]

/-- A run of some words with blanks behind each one. -/
def RunOf (words : List Text) (run : List (Text × Text)) : Prop :=
  ∀ p ∈ run, p.1 ∈ words ∧ Blank p.2 ∧ p.2 ≠ []

instance (words : List Text) (run : List (Text × Text)) : Decidable (RunOf words run) :=
  inferInstanceAs (Decidable (∀ p ∈ run, _))

section Modifiers

variable {words : List Text} {run : List (Text × Text)}

theorem KeyWords.ne_nil (hk : KeyWords words) (hw : w ∈ words) : w ≠ [] := by
  rintro rfl
  exact absurd (hk.starts [] hw) (by simp)

theorem RunOf.tail {p : Text × Text} (h : RunOf words (p :: run)) : RunOf words run :=
  fun q hq => h q (List.mem_cons_of_mem p hq)

theorem RunOf.isRun (hk : KeyWords words) (h : RunOf words run) : IsRun run :=
  fun p hp => ⟨⟨hk.solid _ (h p hp).1, hk.ne_nil (h p hp).1⟩, (h p hp).2⟩

/-- No word goes on behind a run. -/
theorem RunOf.getLast?_spaced (h : RunOf words run) :
    ∀ c ∈ (spaced run).getLast?, isWord c = false := by
  induction run with
  | nil => exact fun c hc => absurd hc (by simp [spaced])
  | cons p run ih =>
    obtain ⟨w, gap⟩ := p
    obtain ⟨-, hb, hn⟩ := h _ List.mem_cons_self
    intro c hc
    by_cases hr : spaced run = []
    · rw [spaced_cons, hr, List.append_nil, List.getLast?_append_of_ne_nil _ hn] at hc
      exact isWord_of_isBlank (hb c (List.mem_of_getLast? hc))
    · rw [spaced_cons, ← List.append_assoc, List.getLast?_append_of_ne_nil _ hr] at hc
      exact ih h.tail c hc

theorem leads_modifierRound (h : (modifierRound words).Leads here e there e') :
    ∃ w ∈ words, ∃ b, Blank b ∧ b ≠ [] ∧ here.rest = w ++ (b ++ there.rest) ∧ e = e' := by
  obtain ⟨_, _, hedge, h⟩ := leads_all_cons.mp h
  cases hedge
  obtain ⟨_, _, hword, h⟩ := leads_all_cons.mp h
  obtain ⟨w, hw, hr, rfl⟩ := leads_oneOf hword
  obtain ⟨b, hb, hn, hr', rfl⟩ := leads_someBlanks h
  exact ⟨w, hw, b, hb, hn, by rw [hr, hr'], rfl⟩

theorem leads_modifiers (h : (star (modifierRound words)).Leads here e there e') :
    ∃ run, RunOf words run ∧ here.rest = spaced run ++ there.rest ∧ e = e' := by
  generalize hp : star (modifierRound words) = p at h
  induction h with
  | starDone => exact ⟨[], fun p hp => absurd hp List.not_mem_nil, rfl, rfl⟩
  | starRound h _ _ _ ih =>
    cases hp
    obtain ⟨w, hw, b, hb, hn, hr, rfl⟩ := leads_modifierRound h
    obtain ⟨run, hrun, hr', rfl⟩ := ih rfl
    refine ⟨(w, b) :: run, ?_, by rw [hr, hr', spaced_cons, List.append_assoc, List.append_assoc],
      rfl⟩
    intro p hp
    rcases List.mem_cons.mp hp with rfl | hp
    · exact ⟨hw, hb, hn⟩
    · exact hrun p hp
  | _ => cases hp

theorem leads_modifierRun (h : (modifierRun words).Leads here e there e') :
    ∃ run, RunOf words run ∧ here.rest = spaced run ++ there.rest ∧
      e = e'.marked .modifiers here there := by
  cases h with
  | mark h =>
    obtain ⟨run, hr, hrest, rfl⟩ := leads_modifiers h
    exact ⟨run, hr, hrest, rfl⟩

/-- A key word that begins a text is the one in front of a blank there. -/
theorem KeyWords.eq_of_prefix (hk : KeyWords words) {v : Text} (hv : v ∈ words)
    (hw : w ∈ words) (hb : Blank b) (hn : b ≠ []) (h : v <+: w ++ (b ++ rest)) : v = w := by
  rcases Nat.le_total v.length w.length with hl | hl
  · exact hk.free v hv w hw (List.prefix_of_prefix_length_le h (List.prefix_append ..) hl)
  · obtain ⟨y, rfl⟩ := List.prefix_of_prefix_length_le (List.prefix_append ..) h hl
    rw [List.prefix_append_right_inj] at h
    obtain ⟨c, b, rfl⟩ := List.exists_cons_of_ne_nil hn
    cases y with
    | nil => exact List.append_nil w
    | cons d y =>
      obtain ⟨rfl, -⟩ := List.cons_prefix_cons.mp h
      have solid := hk.solid _ hv d (by simp)
      rw [hb d List.mem_cons_self] at solid
      exact absurd solid (by simp)

theorem head?_spaced_append (hk : KeyWords words) (hm : RunOf words run)
    (hs : ∀ c ∈ rest.head?, isBlank c = false) :
    ∀ c ∈ (spaced run ++ rest).head?, isBlank c = false := by
  cases run with
  | nil => exact hs
  | cons p run =>
    obtain ⟨w, gap⟩ := p
    have hw := (hm _ List.mem_cons_self).1
    obtain ⟨d, w, rfl⟩ := List.exists_cons_of_ne_nil (hk.ne_nil hw)
    intro c hc
    simp only [spaced_cons, List.cons_append, List.head?_cons, Option.mem_some_iff] at hc
    exact hk.solid _ hw c (by simp [hc])

/-- A run of key words is read to its end, where no further one stands. -/
theorem prefers_modifiers (hk : KeyWords words) (hm : RunOf words run)
    (hr : here.rest = spaced run ++ rest)
    (hb : here.before.head?.any isWord = false) (hs : ∀ c ∈ rest.head?, isBlank c = false)
    (hstop : (modifierRound words).Fails (here.beyond (spaced run) rest)) :
    (star (modifierRound words)).Prefers here (here.beyond (spaced run) rest) := by
  induction run generalizing here with
  | nil =>
    simp only [spaced, List.flatMap_nil, List.nil_append] at hr hstop ⊢
    subst hr
    exact prefers_star_of_fails hstop
  | cons p run ih =>
    obtain ⟨w, gap⟩ := p
    obtain ⟨hw, hg, hn⟩ := hm _ List.mem_cons_self
    rw [spaced_cons, List.append_assoc, List.append_assoc] at hr
    have edge : here.atWordEdge = true := by
      refine atWordEdge_of_word hb ?_
      obtain ⟨c, w, rfl⟩ := List.exists_cons_of_ne_nil (hk.ne_nil hw)
      simpa [hr] using hk.starts _ hw
    have word :
        (oneOf words : Pattern Slot).Prefers here (here.beyond w (gap ++ (spaced run ++ rest))) :=
      prefers_oneOf hw hr fun v hv hp => hk.eq_of_prefix hv hw hg hn (hr ▸ hp)
    have blank :
        (someBlanks : Pattern Slot).Prefers (here.beyond w (gap ++ (spaced run ++ rest))) _ :=
      prefers_someBlanks hg hn rfl (head?_spaced_append hk hm.tail hs)
    rw [Cursor.beyond_beyond] at blank
    have round : (modifierRound words).Prefers here (here.beyond (w ++ gap) (spaced run ++ rest)) :=
      (prefers_wordEdge edge).all_cons (word.all_cons blank)
    refine round.star_round ?_ ?_
    · rw [hr, Cursor.rest_beyond]
      have : 0 < gap.length := List.length_pos_of_ne_nil hn
      simp only [List.length_append]
      omega
    · have edge' : (here.beyond (w ++ gap) (spaced run ++ rest)).before.head?.any
          isWord = false := by
        refine before_beyond_of_getLast (fun c hc => ?_) hb
        rw [List.getLast?_append_of_ne_nil _ hn] at hc
        by_contra hword
        rw [Bool.not_eq_false] at hword
        have := isBlank_of_isWord hword
        rw [hg c (List.mem_of_getLast? hc)] at this
        exact absurd this (by simp)
      have later := Cursor.beyond_beyond here (w ++ gap) (spaced run) (spaced run ++ rest) rest
      rw [spaced_cons, ← List.append_assoc, ← later] at hstop ⊢
      exact ih hm.tail rfl edge' hstop

end Modifiers

/-! ### Parameter lists -/

/-- Whether the parentheses of a text are balanced and stand at most one deep, given whether one is
open. -/
def isFlatFrom (inside : Bool) : Text → Bool
  | [] => !inside
  | c :: rest =>
    if c = '(' then !inside && isFlatFrom true rest
    else if c = ')' then inside && isFlatFrom false rest
    else isFlatFrom inside rest

/-- Whether the parentheses of a text are balanced and stand at most one deep. -/
def isFlat (t : Text) : Bool := isFlatFrom false t

/-- A character that is no parenthesis. -/
def isPlain (c : Char) : Bool := !(['(', ')'].contains c)

/-- Texts made of plain characters and of groups that hold nothing else. -/
inductive Flat : Text → Prop where
  | nil : Flat []
  | plain {c : Char} {t : Text} (hc : isPlain c = true) (ht : Flat t) : Flat (c :: t)
  | group {inner t : Text} (hi : ∀ c ∈ inner, isPlain c = true) (ht : Flat t) :
      Flat ('(' :: (inner ++ ')' :: t))

theorem isPlain_of_ne {c : Char} (ho : c ≠ '(') (hc : c ≠ ')') : isPlain c = true := by
  simp [isPlain, ho, hc]

/-- Inside a group, a text is what is left of the group and a flat text behind it. -/
theorem flat_of_isFlatFrom {t : Text} :
    (isFlatFrom false t = true → Flat t) ∧
      (isFlatFrom true t = true →
        ∃ inner rest, t = inner ++ ')' :: rest ∧ (∀ c ∈ inner, isPlain c = true) ∧ Flat rest) := by
  induction t with
  | nil => exact ⟨fun _ => .nil, fun h => absurd h (by simp [isFlatFrom])⟩
  | cons c t ih =>
    simp only [isFlatFrom]
    by_cases ho : c = '('
    · subst ho
      simp only [if_true, Bool.not_false, Bool.true_and, Bool.not_true, Bool.false_and,
        Bool.false_eq_true, false_implies, and_true]
      intro h
      obtain ⟨inner, rest, rfl, hi, hf⟩ := ih.2 h
      exact .group hi hf
    · rw [if_neg ho, if_neg ho]
      by_cases hc : c = ')'
      · subst hc
        simp only [if_true, Bool.false_and, Bool.false_eq_true, false_implies,
          Bool.true_and, true_and]
        exact fun h => ⟨[], t, rfl, fun d hd => absurd hd List.not_mem_nil, ih.1 h⟩
      · rw [if_neg hc, if_neg hc]
        refine ⟨fun h => .plain (isPlain_of_ne ho hc) (ih.1 h), fun h => ?_⟩
        obtain ⟨inner, rest, rfl, hi, hf⟩ := ih.2 h
        refine ⟨c :: inner, rest, rfl, fun d hd => ?_, hf⟩
        rcases List.mem_cons.mp hd with rfl | hd
        · exact isPlain_of_ne ho hc
        · exact hi d hd

theorem flat_of_isFlat {t : Text} (h : isFlat t = true) : Flat t := flat_of_isFlatFrom.1 h

/-- A plain character or a group. -/
def flatUnit : Pattern Slot := alt (one isPlain) (all [sign '(', star (one isPlain), sign ')'])

theorem flatParentheses_eq : flatParentheses = star flatUnit := rfl

theorem prefers_group {inner : Text} (hi : ∀ c ∈ inner, isPlain c = true)
    (hr : here.rest = '(' :: (inner ++ ')' :: rest)) :
    flatUnit.Prefers here (here.beyond ('(' :: (inner ++ [')'])) rest) := by
  have noPlain : (one isPlain : Pattern Slot).Fails here := fails_one fun d hd => by
    rw [hr] at hd
    rw [← Option.mem_some_iff.mp hd]
    decide
  have opens : (sign '(' : Pattern Slot).Prefers here _ := prefers_sign hr
  have holds :
      (star (one isPlain) : Pattern Slot).Prefers (here.beyond ['('] (inner ++ ')' :: rest)) _ :=
    prefers_star_one hi rfl fun d hd => by
      rw [← Option.mem_some_iff.mp hd]
      decide
  have closes : (all [sign ')'] : Pattern Slot).Prefers
      ((here.beyond ['('] (inner ++ ')' :: rest)).beyond inner (')' :: rest)) _ := prefers_sign rfl
  rw [Cursor.beyond_beyond] at holds closes
  rw [Cursor.beyond_beyond] at closes
  exact (opens.all_cons (holds.all_cons closes)).right noPlain

theorem fails_flatUnit (hr : here.rest = ')' :: rest) : flatUnit.Fails here := by
  refine fails_of_not_leads fun there e e' h => ?_
  cases h with
  | left h =>
    obtain ⟨c, hc, hr', -⟩ := leads_one h
    rw [hr] at hr'
    rw [← (List.cons.inj hr').1] at hc
    exact absurd hc (by decide)
  | right h =>
    obtain ⟨_, _, h, -⟩ := leads_all_cons.mp h
    have := (leads_sign h).1
    rw [hr] at this
    exact absurd (List.cons.inj this).1 (by decide)

/-- A flat text in front of a closing parenthesis is read to its end. -/
theorem prefers_flatParentheses {t : Text} (ht : Flat t) (hr : here.rest = t ++ ')' :: rest) :
    flatParentheses.Prefers here (here.beyond t (')' :: rest)) := by
  rw [flatParentheses_eq]
  induction ht generalizing here with
  | nil =>
    rw [List.nil_append] at hr
    rw [← hr, Cursor.beyond_nil]
    exact prefers_star_of_fails (fails_flatUnit hr)
  | @plain c t hc _ ih =>
    have unit : flatUnit.Prefers here (here.beyond [c] (t ++ ')' :: rest)) :=
      (prefers_one hc hr).left
    have later := @ih (here.beyond [c] (t ++ ')' :: rest)) rfl
    rw [Cursor.beyond_beyond] at later
    exact unit.star_round (by simp [hr]) later
  | @group inner t hi _ ih =>
    have hr : here.rest = '(' :: (inner ++ ')' :: (t ++ ')' :: rest)) := by simp [hr]
    have later := @ih (here.beyond ('(' :: (inner ++ [')'])) (t ++ ')' :: rest)) rfl
    rw [Cursor.beyond_beyond, List.cons_append, List.append_assoc, List.singleton_append] at later
    refine (prefers_group hi hr).star_round ?_ later
    simp only [hr, Cursor.rest_beyond, List.length_cons, List.length_append]
    omega

/-- A parameter list is read with its text marked. -/
theorem run_parameterList {t : Text} (hb : Blank b) (ht : Flat t)
    (hr : here.rest = b ++ '(' :: (t ++ ')' :: rest))
    (he : next (here.beyond (b ++ '(' :: (t ++ [')'])) rest) = some e) :
    parameterList.run here next =
      some (e.marked .parameters (here.beyond (b ++ ['(']) (t ++ ')' :: rest))
      ((here.beyond (b ++ ['(']) (t ++ ')' :: rest)).beyond t (')' :: rest))) := by
  have gap : (blanks : Pattern Slot).Prefers here _ := prefers_blanks hb hr fun c hc => by
    rw [← Option.mem_some_iff.mp hc]
    decide
  have opens : (sign '(' : Pattern Slot).Prefers (here.beyond b ('(' :: (t ++ ')' :: rest))) _ :=
    prefers_sign rfl
  have inside : flatParentheses.Prefers (here.beyond (b ++ ['(']) (t ++ ')' :: rest)) _ :=
    prefers_flatParentheses ht rfl
  have closes : (all [sign ')'] : Pattern Slot).Prefers
      ((here.beyond (b ++ ['(']) (t ++ ')' :: rest)).beyond t (')' :: rest)) _ := prefers_sign rfl
  have found :
      (all [sign ')']).run
        ((here.beyond (b ++ ['(']) (t ++ ')' :: rest)).beyond t (')' :: rest)) next =
      some e := closes _ _ (by simpa using he)
  rw [Cursor.beyond_beyond] at opens
  exact gap.run_all (opens.run_all (inside.run_all_mark found))

theorem leads_parameterList (h : parameterList.Leads here e there e') :
    ∃ b y, Blank b ∧ here.rest = b ++ '(' :: y := by
  obtain ⟨_, _, hgap, h⟩ := leads_all_cons.mp h
  obtain ⟨_, _, ho, -⟩ := leads_all_cons.mp h
  obtain ⟨b, hb, hr, rfl⟩ := leads_blanks hgap
  exact ⟨b, _, hb, by rw [hr, (leads_sign ho).1]⟩

/-! ### Type parameters -/

/-- The characters that the type parameters of a member may not hold. -/
def barred : Text := ['{', '}', '(', ')', ';', '=']

/-- A text in angle brackets. -/
def bracketed (inner : Text) : Text := '<' :: (inner ++ ['>'])

theorem getLast?_bracketed (inner : Text) : (bracketed inner).getLast? = some '>' := by
  rw [bracketed, ← List.cons_append, List.getLast?_concat]

/-- A group in angle brackets is read to its end where what follows cannot start behind an earlier
one. -/
theorem run_angleGroup {signs inner : Text} (hi : ∀ c ∈ inner, c ∉ signs) (hne : inner ≠ [])
    (hr : here.rest = bracketed inner ++ rest)
    (hn : ∀ u v, u ++ '>' :: v = inner → next (here.beyond (bracketed u) (v ++ '>' :: rest)) = none)
    (he : next (here.beyond (bracketed inner) rest) = some e) :
    (angleGroup signs).run here next = some e := by
  obtain ⟨c, w, rfl⟩ := List.exists_cons_of_ne_nil hne
  have opens : (sign '<' : Pattern Slot).Prefers here (here.beyond ['<'] (c :: w ++ '>' :: rest)) :=
    prefers_sign (by rw [hr, bracketed, List.cons_append, List.append_assoc, List.singleton_append])
  refine opens.run_all ?_
  rw [run_all_cons]
  refine run_lazyPlus_one (fun d hd => by simpa using hi d hd) rfl (fun u v huv hv => ?_) ?_
  · obtain ⟨d, v, rfl⟩ := List.exists_cons_of_ne_nil hv
    by_cases hd : d = '>'
    · subst hd
      have closes :
          (all [sign '>'] : Pattern Slot).run
            ((here.beyond ['<'] (c :: w ++ '>' :: rest)).beyond (c :: u)
          ('>' :: (v ++ '>' :: rest))) next = next
            (here.beyond (bracketed (c :: u)) (v ++ '>' :: rest)) := by
        simp [all, sign, run, bracketed, Cursor.past_eq_beyond]
      exact closes.trans (hn (c :: u) v (by rw [List.cons_append, huv]))
    · exact fails_sign (by simpa using hd) next
  · have closes : (all [sign '>'] : Pattern Slot).Prefers
        ((here.beyond ['<'] (c :: w ++ '>' :: rest)).beyond (c :: w) ('>' :: rest)) _ :=
          prefers_sign rfl
    rw [Cursor.beyond_beyond, Cursor.beyond_beyond] at closes
    rw [Cursor.beyond_beyond]
    exact closes next e (by simpa [bracketed] using he)

theorem leads_angleGroup {signs : Text} (h : (angleGroup signs).Leads here e there e') :
    ∃ inner, (∀ c ∈ inner, c ∉ signs) ∧ here.rest = bracketed inner ++ there.rest ∧ e = e' := by
  obtain ⟨_, _, ho, h⟩ := leads_all_cons.mp h
  obtain ⟨_, _, hi, hc⟩ := leads_all_cons.mp h
  obtain ⟨hr, rfl⟩ := leads_sign ho
  cases hi with
  | seq hone hmore =>
    obtain ⟨c, hc', hr', rfl⟩ := leads_one hone
    obtain ⟨w, hw, hr'', rfl⟩ := leads_lazyStar_one hmore
    obtain ⟨hclose, rfl⟩ := leads_sign hc
    refine ⟨c :: w, fun d hd => ?_, by simp [hr, hr', hr'', hclose, bracketed], rfl⟩
    rcases List.mem_cons.mp hd with rfl | hd
    · simpa using hc'
    · simpa using hw d hd

end SourceSurvey.Source
