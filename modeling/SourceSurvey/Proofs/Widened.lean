import SourceSurvey.Proofs.Clause
import SourceSurvey.Source.Grammar
import Mathlib.Data.List.Forall2

/-! A text and the same text with one more blank in front of a newline or at its end. Both have the
same words. Whatever is cut out of them at commas or brackets differs in the same way, and what is
reported of it does not differ at all: clauses and parameters are read off words, only the text of a
parameter and of its attributes keeps the blank. -/

namespace SourceSurvey.Source

open Text

/-- A text and the same text with a further blank, in front of one of its newlines or at its end, if
anywhere. -/
inductive Widened (d : Char) : Text → Text → Prop
  | same (u : Text) : Widened d u u
  | gap (b : Text) : Widened d ('\n' :: b) (d :: '\n' :: b)
  | extra : Widened d [] [d]
  | cons (c : Char) {u u' : Text} (h : Widened d u u') : Widened d (c :: u) (c :: u')

/-- The same, but the further blank stands in front of a newline, if anywhere. -/
def Inside (d : Char) (u u' : Text) : Prop :=
  u = u' ∨ ∃ a b, u = a ++ '\n' :: b ∧ u' = a ++ d :: '\n' :: b

variable {a b : Text} {d : Char} {u u' : Text}

theorem ne_of_isBlank {c s : Char} (hc : isBlank c = true) (hs : isBlank s = false) :
    c ≠ s := fun he => by
  rw [he, hs] at hc
  exact absurd hc (by simp)

theorem trimStart_append (ha : ¬Blank a) (t : Text) : trimStart (a ++ t) = trimStart a ++ t := by
  obtain ⟨x, c, y, rfl, hx, hc⟩ := exists_eq_blank_append ha
  rw [List.append_assoc, trimStart, trimStart, dropWhile_blank_append hx, dropWhile_blank_append hx,
    List.cons_append,
    List.dropWhile_cons_of_neg (by simp [hc]), List.dropWhile_cons_of_neg (by simp [hc])]
  rfl

theorem trimEnd_append (hb : ¬Blank b) (t : Text) : trimEnd (t ++ b) = t ++ trimEnd b := by
  induction t with
  | nil => rfl
  | cons c t ih =>
    have kept : trimEnd b ≠ [] :=
      fun he => hb (words_eq_nil_iff.mp (by rw [← words_trimEnd, he, words_nil]))
    rw [List.cons_append, trimEnd, ih]
    split
    · next he => exact absurd (List.append_eq_nil_iff.mp he).2 kept
    · rfl

theorem blank_newline : Blank ['\n'] := fun c hc => by rw [List.mem_singleton.mp hc]; decide

theorem blank_singleton (hd : isBlank d = true) : Blank [d] :=
  fun c hc => by rwa [List.mem_singleton.mp hc]

namespace Widened

theorem append (h : Widened d u u') (a : Text) : Widened d (a ++ u) (a ++ u') := by
  induction a with
  | nil => exact h
  | cons c a ih => exact ih.cons c

theorem inner (a b : Text) : Widened d (a ++ '\n' :: b) (a ++ d :: '\n' :: b) := (gap b).append a

theorem of_inside (h : Inside d u u') : Widened d u u' := by
  rcases h with rfl | ⟨a, b, rfl, rfl⟩
  · exact .same u
  · exact inner a b

theorem last (a : Text) : Widened d a (a ++ [d]) := by
  have h := extra.append (d := d) a
  rwa [List.append_nil] at h

theorem split (h : Widened d u u') :
    u' = u ∨ (∃ a b, u = a ++ '\n' :: b ∧ u' = a ++ d :: '\n' :: b) ∨ u' = u ++ [d] := by
  induction h with
  | same => exact .inl rfl
  | gap b => exact .inr (.inl ⟨[], b, rfl, rfl⟩)
  | extra => exact .inr (.inr rfl)
  | cons c _ ih =>
    rcases ih with h | ⟨a, b, h, h'⟩ | h
    · exact .inl (h ▸ rfl)
    · exact .inr (.inl ⟨c :: a, b, h ▸ rfl, h' ▸ rfl⟩)
    · exact .inr (.inr (h ▸ rfl))

section Words

variable (hd : isBlank d = true)
include hd

theorem words_eq (h : Widened d u u') : words u = words u' := by
  rcases h.split with rfl | ⟨a, b, rfl, rfl⟩ | rfl
  · rfl
  · have narrow : words (a ++ '\n' :: b) = words a ++ words b :=
      words_append_gap blank_newline (by simp) a b
    have wide : words (a ++ d :: '\n' :: b) = words a ++ words b :=
      words_append_gap ((blank_singleton hd).append blank_newline) (by simp) a b
    rw [narrow, wide]
  · rw [words_append_blank (blank_singleton hd)]

theorem collapse_eq (h : Widened d u u') : collapse u = collapse u' :=
  collapse_eq_iff.mpr (h.words_eq hd)

/-- A further blank is told by the blanks of a text. -/
theorem eq_of_solid (h : Widened d u u') (hu : Solid u) (hu' : Solid u') : u = u' := by
  rcases h.split with rfl | ⟨a, b, rfl, rfl⟩ | rfl
  · rfl
  · exact absurd (hu '\n' (by simp)) (by decide)
  · have := hu' d (by simp)
    rw [hd] at this
    exact absurd this (by simp)

/-- Trimming leaves the blank inside, or drops it. -/
theorem trim (h : Widened d u u') : Inside d (Text.trim u) (Text.trim u') := by
  have single := blank_singleton hd
  rcases h.split with rfl | ⟨a, b, rfl, rfl⟩ | rfl
  · exact .inl rfl
  · by_cases ha : Blank a
    · have narrow := trim_blank_append (ha.append blank_newline) b
      have wide := trim_blank_append (ha.append (single.append blank_newline)) b
      rw [List.append_assoc] at narrow wide
      exact .inl (narrow.trans wide.symm)
    by_cases hb : Blank b
    · have narrow := trim_append_blank (blank_newline.append hb) a
      have wide := trim_append_blank (single.append (blank_newline.append hb)) a
      exact .inl (narrow.trans wide.symm)
    · have narrow := trimEnd_append hb (trimStart a ++ ['\n'])
      have wide := trimEnd_append hb (trimStart a ++ [d, '\n'])
      rw [List.append_assoc, List.append_assoc, ← trimStart_append ha] at narrow wide
      exact .inr ⟨trimStart a, trimEnd b, narrow, wide⟩
  · exact .inl (trim_append_blank single u).symm

end Words

/-! ### Lists between commas -/

theorem forall₂_modifyHead_cons {c : Char} {ts ts' : List Text}
    (h : List.Forall₂ (Widened d) ts ts') :
    List.Forall₂ (Widened d) (ts.modifyHead (c :: ·)) (ts'.modifyHead (c :: ·)) := by
  cases h with
  | nil => exact .nil
  | cons h hs => exact .cons (h.cons c) hs

theorem forall₂_same (ts : List Text) : List.Forall₂ (Widened d) ts ts :=
  List.forall₂_same.mpr fun t _ => .same t

variable (hd : isBlank d = true)
include hd

theorem piecesFrom_blank (depth : Nat) (t : Text) :
    piecesFrom depth (d :: t) = (piecesFrom depth t).modifyHead (d :: ·) := by
  rw [piecesFrom_cons (fun h => ne_comma_of_isBlank hd h.1), angleDepth_of_isBlank hd]

theorem piecesFrom (h : Widened d u u') (depth : Nat) :
    List.Forall₂ (Widened d) (piecesFrom depth u) (piecesFrom depth u') := by
  induction h generalizing depth with
  | same => exact forall₂_same _
  | gap b =>
    rw [piecesFrom_blank hd, piecesFrom_blank (d := '\n') (by decide)]
    cases Source.piecesFrom depth b with
    | nil => exact .nil
    | cons t ts => exact .cons (.gap t) (forall₂_same ts)
  | extra =>
    rw [piecesFrom_blank hd]
    exact .cons .extra .nil
  | cons c _ ih =>
    by_cases hc : c = ',' ∧ depth = 0
    · rw [Source.piecesFrom, Source.piecesFrom, if_pos hc, if_pos hc]
      exact .cons (.same []) (ih 0)
    · rw [piecesFrom_cons hc, piecesFrom_cons hc]
      exact forall₂_modifyHead_cons (ih _)

/-- The entries of the two texts answer each other. -/
theorem splitParameters (h : Widened d u u') :
    List.Forall₂ (Inside d) (splitParameters u) (splitParameters u') := by
  have pieces :
      List.Forall₂ (Inside d) ((Source.piecesFrom 0 u).map Text.trim)
        ((Source.piecesFrom 0 u').map Text.trim) := by
    rw [List.forall₂_map_left_iff, List.forall₂_map_right_iff]
    exact (h.piecesFrom hd 0).imp fun _ _ h => h.trim hd
  refine List.rel_filter (fun t t' ht => ?_) pieces
  rcases ht with rfl | ⟨a, b, rfl, rfl⟩
  · rfl
  · simp

theorem map_collapse_eq {ts ts' : List Text} (h : List.Forall₂ (Inside d) ts ts') :
    ts.map collapse = ts'.map collapse := by
  induction h with
  | nil => rfl
  | cons ht _ ih => rw [List.map_cons, List.map_cons, ih, (of_inside ht).collapse_eq hd]

theorem splitClause {c c' : Option Text} (h : Option.Rel (Widened d) c c') :
    splitClause c = splitClause c' := by
  cases h with
  | none => rfl
  | some h => rw [Source.splitClause, Source.splitClause, map_collapse_eq hd (h.splitParameters hd)]

/-! ### Default values -/

/-- The blank stands in front of the default value or behind its sign. -/
theorem beforeDefault? (h : Widened d u u') (depth : Nat) :
    Option.Rel (Widened d) (beforeDefault? depth u) (beforeDefault? depth u') := by
  have skipped : ∀ {c : Char}, isBlank c = true →
      ∀ depth (t : Text), Source.beforeDefault? depth (c :: t) =
      (Source.beforeDefault? depth t).map (c :: ·) := by
    intro c hc depth t
    have other : ∀ s ∈ ['=', '<', '(', '[', '>', ')', ']'], c ≠ s := fun s hs =>
      ne_of_isBlank hc
        ((by decide : ∀ s ∈ ['=', '<', '(', '[', '>', ')', ']'], isBlank s = false) s hs)
    have sign : ¬(c = '=' ∧ depth = 0) := fun he => other '=' (by simp) he.1
    rw [Source.beforeDefault?, if_neg sign, bracketDepth, if_neg (by simp [other]),
      if_neg (by simp [other])]
  induction h generalizing depth with
  | same t =>
    cases Source.beforeDefault? depth t with
    | none => exact .none
    | some t => exact .some (.same t)
  | gap b =>
    rw [skipped hd, skipped (c := '\n') (by decide)]
    cases Source.beforeDefault? depth b with
    | none => exact .none
    | some t => exact .some (.gap t)
  | extra =>
    rw [skipped hd]
    exact .none
  | cons c _ ih =>
    rw [Source.beforeDefault?, Source.beforeDefault?]
    split
    · exact .some (.same [])
    · have later := ih (bracketDepth depth c)
      revert later
      cases Source.beforeDefault? (bracketDepth depth c) _ <;> cases Source.beforeDefault?
        (bracketDepth depth c) _ <;>
        rintro ⟨⟩
      · exact .none
      · next h => exact .some (h.cons c)

theorem words_stripDefault (h : Widened d u u') :
    words (stripDefault u) = words (stripDefault u') := by
  have start := h.beforeDefault? hd 0
  rw [stripDefault, stripDefault]
  generalize Source.beforeDefault? 0 u = t, Source.beforeDefault? 0 u' = t' at start
  cases start with
  | none => exact h.words_eq hd
  | some h => exact (words_trimEnd _).trans ((h.words_eq hd).trans (words_trimEnd _).symm)

end Widened

/-! ### Bracketed groups -/

/-- Groups that answer each other, and what stands behind them. -/
structure GroupsAlike (d : Char) (a a' : List Text × Text) : Prop where
  groups : List.Forall₂ (Inside d) a.1 a'.1
  rest : Widened d a.2 a'.2

theorem Inside.refl (u : Text) : Inside d u u := .inl rfl

theorem Inside.append (h : Inside d u u') (t : Text) : Inside d (u ++ t) (u' ++ t) := by
  rcases h with rfl | ⟨a, b, rfl, rfl⟩
  · exact .inl rfl
  · exact .inr ⟨a, b ++ t, by simp, by simp⟩

theorem GroupsAlike.refl (a : List Text × Text) : GroupsAlike d a a :=
  ⟨List.forall₂_same.mpr fun _ _ => .refl _, .same _⟩

theorem takeGroupsFrom_closed (group rest : Text) : takeGroupsFrom 1 group (']' :: rest) =
    ((group ++ [']']) :: (takeGroupsFrom 0 [] rest).1, (takeGroupsFrom 0 [] rest).2) := rfl

theorem takeGroupsFrom_open {depth : Nat} {c : Char} (hc : ¬(c = ']' ∧ depth = 0))
    (group rest : Text) :
    takeGroupsFrom (depth + 1) group (c :: rest) = takeGroupsFrom (squareDepth (depth + 1) c)
      (group ++ [c]) rest := by
  rw [takeGroupsFrom, if_neg hc]

/-- A bracket further out stays open behind every character but the one that closes it. -/
theorem squareDepth_succ {depth : Nat} {c : Char} (hc : ¬(c = ']' ∧ depth = 0)) :
    squareDepth (depth + 1) c = squareDepth depth c + 1 := by
  rw [squareDepth, squareDepth]
  split
  · rfl
  · split
    · next closing =>
      have inner : depth ≠ 0 := fun zero => hc ⟨closing, zero⟩
      omega
    · rfl

/-- A group stays open behind every character but the bracket that closes it. -/
theorem exists_squareDepth_eq_succ {depth : Nat} {c : Char} (hc : ¬(c = ']' ∧ depth = 0)) :
    ∃ next, squareDepth (depth + 1) c = next + 1 := ⟨squareDepth depth c, squareDepth_succ hc⟩

/-- A group that is read on with a further blank in it keeps the blank. -/
theorem takeGroupsFrom_inside {group group' : Text} (hg : Inside d group group')
    (depth : Nat) (t : Text) :
    GroupsAlike d (takeGroupsFrom (depth + 1) group t) (takeGroupsFrom (depth + 1) group' t) := by
  induction t generalizing depth group group' with
  | nil => exact ⟨.nil, .of_inside hg⟩
  | cons c t ih =>
    by_cases hc : c = ']' ∧ depth = 0
    · obtain ⟨rfl, rfl⟩ := hc
      rw [takeGroupsFrom_closed, takeGroupsFrom_closed]
      exact ⟨.cons (hg.append [']']) (List.forall₂_same.mpr fun _ _ => .refl _), .same _⟩
    · obtain ⟨next, hn⟩ := exists_squareDepth_eq_succ hc
      rw [takeGroupsFrom_open hc, takeGroupsFrom_open hc, hn]
      exact ih (hg.append [c]) next

theorem Widened.takeGroupsFrom (hd : isBlank d = true) (h : Widened d u u') (depth : Nat)
    (group : Text) :
    GroupsAlike d (takeGroupsFrom depth group u) (takeGroupsFrom depth group u') := by
  have skipped : ∀ {c : Char}, isBlank c = true → ∀ depth group (t : Text),
      Source.takeGroupsFrom (depth + 1) group (c :: t) =
      Source.takeGroupsFrom (depth + 1) (group ++ [c]) t := by
    intro c hc depth group t
    have closing := ne_of_isBlank hc (s := ']') (by decide)
    rw [takeGroupsFrom_open fun he => closing he.1, squareDepth,
      if_neg (ne_of_isBlank hc (by decide)), if_neg closing]
  have front : ∀ {c : Char}, isBlank c = true →
      ∀ group (t : Text), Source.takeGroupsFrom 0 group (c :: t) =
      Source.takeGroupsFrom 0 [] t := fun hc _ _ => by rw [Source.takeGroupsFrom, if_pos hc]
  induction h generalizing depth group with
  | same t => exact .refl _
  | gap b =>
    cases depth with
    | zero =>
      rw [front hd, front (c := '\n') (by decide), front (c := '\n') (by decide)]
      exact .refl _
    | succ depth =>
      rw [skipped hd, skipped (c := '\n') (by decide), skipped (c := '\n') (by decide),
        List.append_assoc]
      exact takeGroupsFrom_inside (.inr ⟨group, [], rfl, rfl⟩) depth b
  | extra =>
    cases depth with
    | zero =>
      rw [front hd]
      exact .refl _
    | succ depth =>
      rw [skipped hd]
      exact ⟨.nil, .last group⟩
  | @cons c u u' h ih =>
    cases depth with
    | zero =>
      rw [Source.takeGroupsFrom, Source.takeGroupsFrom]
      split
      · exact ih 0 []
      · split
        · exact ih 1 ['[']
        · exact ⟨.nil, h.cons c⟩
    | succ depth =>
      by_cases hc : c = ']' ∧ depth = 0
      · obtain ⟨rfl, rfl⟩ := hc
        have later := ih 0 []
        rw [takeGroupsFrom_closed, takeGroupsFrom_closed]
        exact ⟨.cons (.refl _) later.groups, later.rest⟩
      · rw [takeGroupsFrom_open hc, takeGroupsFrom_open hc]
        exact ih _ _

/-! ### Parameters -/

/-- A parameter with single spaces between the words of its text and of the attributes in brackets.
-/
def Parameter.blurred (language : Language) (p : Parameter) : Parameter :=
  { p with
    raw := collapse p.raw
    attributes := match language with
      | .csharp => p.attributes.map collapse
      | .java => p.attributes }

theorem CSharp.parseParameter_widened (hd : isBlank d = true) (h : Widened d u u') :
    (CSharp.parseParameter u).blurred .csharp = (CSharp.parseParameter u').blurred .csharp := by
  have raw := Widened.of_inside (h.trim hd)
  have parts := raw.takeGroupsFrom hd 0 []
  have attributes : (takeGroups (trim u)).1.map collapse = (takeGroups (trim u')).1.map collapse :=
    Widened.map_collapse_eq hd parts.groups
  have tokens :
      words (stripDefault (takeGroups (trim u)).2) = words
        (stripDefault (takeGroups (trim u')).2) :=
    parts.rest.words_stripDefault hd
  simp only [CSharp.parseParameter, Parameter.blurred, raw.collapse_eq hd, attributes, tokens]

end SourceSurvey.Source
