import SourceSurvey.Proofs.Segment

/-! The scan of a text along its segments. A scan that is not in code passes over some characters
until it is in code again; behind an opener these are the rest of the segment, so the decisions of
the scan to keep or to mask a character follow the decomposition of the text. -/

namespace SourceSurvey.Source

variable {language : Language}

/-- For every character of a text, whether the scan keeps it. -/
def keptFrom (language : Language) : Standing → Text → List Bool
  | _, [] => []
  | here, c :: rest =>
      keeps language here c rest :: keptFrom language (step language here c rest) rest

/-- The masked text shows what the scan decides. -/
theorem maskFrom_eq_kept (here : Standing) (t : Text) :
    maskFrom language here t =
      (t.zip (keptFrom language here t)).flatMap fun (c, kept) => if kept then [c] else
        maskChar c := by
  induction t generalizing here with
  | nil => rfl
  | cons c rest ih => simp [maskFrom, keptFrom, ih]

/-- The characters that a scan passes until it is in code. -/
def passed (language : Language) : Standing → Text → Text
  | _, [] => []
  | here, c :: rest =>
    if step language here c rest = .code then [c]
    else c :: passed language (step language here c rest) rest

theorem passed_cons_code {here : Standing} {c : Char} {rest : Text}
    (h : step language here c rest = .code) :
    passed language here (c :: rest) = [c] := if_pos h

theorem passed_cons {here there : Standing} {c : Char} {rest : Text}
    (h : step language here c rest = there)
    (ht : there ≠ .code) : passed language here (c :: rest) = c :: passed language there rest := by
  subst h
  exact if_neg ht

theorem settled_ne_code {region : Region} (hr : region ≠ .code) : Standing.settled region ≠ .code :=
  fun h => hr (Standing.mk.inj h).2

/-- The characters that are passed outside of code are masked. -/
theorem keptFrom_passed {here : Standing} {body rest : Text} (hh : here ≠ .code)
    (h : passed language here (body ++ rest) = body) :
    keptFrom language here (body ++ rest) =
      (body.map fun _ => false) ++ keptFrom language .code rest := by
  induction body generalizing here with
  | nil =>
    cases rest with
    | nil => rfl
    | cons c rest =>
      simp only [List.nil_append, passed] at h
      split at h <;> simp at h
  | cons c body ih =>
    have hk : keeps language here c (body ++ rest) = false := by simp [keeps, hh]
    simp only [List.cons_append, passed] at h
    simp only [List.cons_append, keptFrom, hk, List.map_cons]
    split at h
    · next hs =>
      obtain rfl : body = [] := by simpa using h.symm
      simp only [List.nil_append] at hs ⊢
      rw [hs]
      rfl
    · next hs => rw [ih hs (List.cons.inj h).2]

/-- The owed characters of a sign are passed. -/
theorem passed_owed {region : Region} (hr : region ≠ .code) (owed t : Text) :
    passed language ⟨owed.length, region⟩ (owed ++ t) = owed ++ passed language
      (.settled region) t := by
  induction owed with
  | nil => rfl
  | cons c owed ih =>
    have hs : step language ⟨owed.length + 1, region⟩ c (owed ++ t) = ⟨owed.length, region⟩ := rfl
    rw [List.length_cons, List.cons_append, passed_cons hs fun h => hr (Standing.mk.inj h).2, ih]
    rfl

/-! ### One region at a time -/

theorem passed_lineComment {body rest : Text} (h : Comment ['\n'] body rest) :
    passed language (.settled .lineComment) (body ++ rest) = body := by
  induction body with
  | nil => rw [h.rest_eq_nil (by simp)]; rfl
  | cons c body ih =>
    rcases h.of_cons with hm | ⟨hm, hb⟩
    · obtain ⟨rfl, rfl⟩ := List.cons.inj hm
      exact passed_cons_code rfl
    · have hc : c ≠ '\n' := by rintro rfl; simp at hm
      have hs : step language (.settled .lineComment) c (body ++ rest) = .settled .lineComment :=
        if_neg hc
      rw [List.cons_append, passed_cons hs (by decide), ih hb]

theorem passed_blockComment {body rest : Text} (h : Comment ['*', '/'] body rest) :
    passed language (.settled .blockComment) (body ++ rest) = body := by
  induction body with
  | nil => rw [h.rest_eq_nil (by simp)]; rfl
  | cons c body ih =>
    rcases h.of_cons with hm | ⟨hm, hb⟩
    · obtain ⟨rfl, rfl⟩ := List.cons.inj hm
      have hs : step language (.settled .blockComment) '*' ('/' :: rest) = ⟨1, .code⟩ := rfl
      rw [List.cons_append, List.singleton_append, passed_cons hs (by decide), passed_cons_code rfl]
    · -- the mark cannot begin here and end in what follows: an empty body has nothing behind it
      have hc : ¬(c = '*' ∧ (body ++ rest).head? = some '/') := by
        rintro ⟨rfl, hd⟩
        cases body with
        | nil => simp [hb.rest_eq_nil (by simp)] at hd
        | cons d body => exact hm (by simpa using hd.symm)
      have hs : step language (.settled .blockComment) c (body ++ rest) = .settled .blockComment :=
        if_neg hc
      rw [List.cons_append, passed_cons hs (by decide), ih hb]

/-- A row of units is passed where each of them leaves the scan as it was. -/
theorem passed_row {unit : Text → Prop} {here : Standing}
    (hu : ∀ u t, unit u → passed language here (u ++ t) = u ++ passed language here t)
    {inner : Text} (hi : Row unit inner) (t : Text) :
    passed language here (inner ++ t) = inner ++ passed language here t := by
  induction hi with
  | nil => rfl
  | cons hunit _ ih => rw [List.append_assoc, hu _ _ hunit, ih, List.append_assoc]

theorem passed_verbatimUnit {u : Text} (t : Text) (hu : VerbatimUnit u) :
    passed language (.settled .verbatim) (u ++ t) = u ++ passed language
      (.settled .verbatim) t := by
  rcases hu with rfl | ⟨c, hc, rfl⟩
  · have hs : step language (.settled .verbatim) '"' ('"' :: t) = ⟨1, .verbatim⟩ := rfl
    have ho : step language ⟨1, .verbatim⟩ '"' t = .settled .verbatim := rfl
    simp only [List.cons_append, List.nil_append]
    rw [passed_cons hs (by decide), passed_cons ho (by decide)]
  · have hs : step language (.settled .verbatim) c t = .settled .verbatim := if_neg hc
    exact passed_cons hs (by decide)

theorem passed_verbatim {body rest : Text} (h : VerbatimLiteral body rest) :
    passed language (.settled .verbatim) (body ++ rest) = body := by
  obtain ⟨inner, hi, ⟨rfl, hr⟩ | ⟨rfl, rfl⟩⟩ := h
  · have hs : step language (.settled .verbatim) '"' rest = .code := by
      simp [step, Standing.settled, hr]
    rw [List.append_assoc, passed_row (fun _ => passed_verbatimUnit) hi, List.singleton_append,
      passed_cons_code hs]
  · rw [passed_row (fun _ => passed_verbatimUnit) hi, passed, List.append_nil]

section Escaped

variable {region : Region} {close : Char} (hr : region ≠ .code)
  (hs : ∀ c rest, step language (.settled region) c rest = literalStep region close c rest)
include hr hs

theorem passed_escapedUnit {u : Text} (t : Text) (hu : EscapedUnit close u) :
    passed language (.settled region) (u ++ t) = u ++ passed language (.settled region) t := by
  rcases hu with ⟨c, rfl⟩ | ⟨c, he, hc, rfl⟩
  · have hb : step language (.settled region) '\\' (c :: t) = ⟨1, region⟩ := by
      simp [hs, literalStep]
    have ho : step language ⟨1, region⟩ c t = .settled region := rfl
    simp only [List.cons_append, List.nil_append]
    rw [passed_cons hb fun h => hr (Standing.mk.inj h).2, passed_cons ho (settled_ne_code hr)]
  · have hb : step language (.settled region) c t = .settled region := by
      simp [hs, literalStep, he, hc]
    exact passed_cons hb (settled_ne_code hr)

theorem passed_escaped (he : close ≠ '\\') {body rest : Text} (h : EscapedLiteral close body rest) :
    passed language (.settled region) (body ++ rest) = body := by
  obtain ⟨inner, hi, h⟩ := h
  have row := passed_row (fun _ => passed_escapedUnit hr hs) hi
  rcases h with rfl | ⟨rfl | rfl, rfl⟩
  · have hb : step language (.settled region) close rest = .code := by
      simp [hs, literalStep, he]
    rw [List.append_assoc, row, List.singleton_append, passed_cons_code hb]
  · rw [row, passed, List.append_nil]
  · have hb : step language (.settled region) '\\' [] = .settled region := by
      simp [hs, literalStep, he.symm]
    rw [List.append_assoc, row, List.append_nil, passed_cons hb (settled_ne_code hr)]
    rfl

end Escaped

/-- A scan behind an opener passes what fills the segment. -/
theorem passed_of_fills {region : Region} {body rest : Text} (h : Fills region body rest) :
    passed language (.settled region) (body ++ rest) = body := by
  cases region with
  | code => exact h.elim
  | lineComment => exact passed_lineComment h
  | blockComment => exact passed_blockComment h
  | quoted => exact passed_escaped (by decide) (fun _ _ => rfl) (by decide) h
  | verbatim => exact passed_verbatim h
  | character => exact passed_escaped (by decide) (fun _ _ => rfl) (by decide) h

/-- A segment ends in one place only. -/
theorem Fills.unique {region : Region} {body body' rest rest' : Text} (h : Fills region body rest)
    (h' : Fills region body' rest') (he : body ++ rest = body' ++ rest') :
    body = body' ∧ rest = rest' := by
  have hb : body = body' := by
    have hp := congrArg (passed .java (.settled region)) he
    rwa [passed_of_fills h, passed_of_fills h'] at hp
  subst hb
  exact ⟨rfl, List.append_cancel_left he⟩

/-! ### Decompositions and the scan -/

/-- The table of openers tells what the scan finds at a place in code. -/
theorem opening?_eq (c : Char) (rest : Text) :
    opening? language c rest =
      (opener? language (c :: rest)).map fun opener => ⟨opener.1.length - 1, opener.2⟩ := by
  have one (d : Char) : [d].isPrefixOf rest = decide (rest.head? = some d) := by
    cases rest <;> simp [List.isPrefixOf, eq_comm, Bool.beq_eq_decide_eq]
  have two : ['$', '"'].isPrefixOf rest = decide (rest.take 2 = ['$', '"']) := by
    rcases rest with _ | ⟨d, _ | ⟨e, rest⟩⟩ <;>
      simp [List.isPrefixOf, Bool.beq_eq_decide_eq, eq_comm (a := '$'), eq_comm (a := '"')]
  by_cases hs : c = '/'
  · subst hs
    by_cases h : rest.head? = some '/'
    · cases language <;> simp [opening?, opener?, openers, List.isPrefixOf, one, h]
    · by_cases h' : rest.head? = some '*' <;> cases language <;>
        simp [opening?, opener?, openers, List.isPrefixOf, one, h, h', Language.verbatimMark]
  by_cases ha : c = '@'
  · subst ha
    by_cases h : rest.head? = some '"'
    · cases language <;> simp [opening?, opener?, openers, List.isPrefixOf, one, h,
        Language.verbatimMark]
    · by_cases h' : rest.take 2 = ['$', '"'] <;> cases language <;>
        simp [opening?, opener?, openers, List.isPrefixOf, one, two, h, h', Language.verbatimMark]
  by_cases hq : c = '"'
  · subst hq
    cases language <;> simp [opening?, opener?, openers, List.isPrefixOf, Language.verbatimMark]
  by_cases hc : c = '\''
  · subst hc
    cases language <;> simp [opening?, opener?, openers, List.isPrefixOf, Language.verbatimMark]
  -- no opener begins with any other character
  cases language <;>
    simp [opening?, opener?, openers, List.isPrefixOf, Language.verbatimMark, hs, Ne.symm hs,
      Ne.symm ha, hq, Ne.symm hq, hc, Ne.symm hc]

/-- An opener is not empty, and what it opens is not code. -/
theorem openers_spec (language : Language) :
    ∀ opener ∈ openers language, opener.1 ≠ [] ∧ opener.2 ≠ .code := by
  cases language <;> decide

/-- A segment that is opened in code is masked, and behind it the scan is in code again. -/
theorem keptFrom_segment {opener body rest : Text} {region : Region}
    (ho : opener? language (opener ++ (body ++ rest)) = some (opener, region))
    (h : Fills region body rest) :
    keptFrom language .code (opener ++ (body ++ rest)) =
      ((opener ++ body).map fun _ => false) ++ keptFrom language .code rest := by
  obtain ⟨hn, hr⟩ := openers_spec language _ (List.mem_of_find?_eq_some ho)
  cases opener with
  | nil => exact absurd rfl hn
  | cons c owed =>
    have hs : opening? language c (owed ++ (body ++ rest)) = some ⟨owed.length, region⟩ := by
      rw [opening?_eq, ← List.cons_append, ho]
      rfl
    have hp : passed language ⟨owed.length, region⟩ ((owed ++ body) ++ rest) = owed ++ body := by
      rw [List.append_assoc, passed_owed hr, passed_of_fills h]
    have hk := keptFrom_passed (fun hc => hr (Standing.mk.inj hc).2) hp
    rw [List.append_assoc] at hk
    rw [List.cons_append, keptFrom, keeps_code, step_code, hs, Option.getD_some, hk]
    rfl

theorem exists_segmented (language : Language)
    (t : Text) : ∃ parts, Segmented language t parts := by
  induction hn : t.length using Nat.strongRecOn generalizing t with
  | ind n ih =>
    subst hn
    cases t with
    | nil => exact ⟨[], .nil⟩
    | cons c rest =>
      cases ho : opener? language (c :: rest) with
      | none =>
        obtain ⟨parts, hp⟩ := ih rest.length (by simp) rest rfl
        exact ⟨.code c :: parts, .code ho hp⟩
      | some found =>
        obtain ⟨opener, region⟩ := found
        obtain ⟨hn, hr⟩ := openers_spec language _ (List.mem_of_find?_eq_some ho)
        obtain ⟨behind, hb⟩ : opener <+: c :: rest :=
          List.isPrefixOf_iff_prefix.mp (List.find?_some ho :)
        obtain ⟨body, after, rfl, hf⟩ := exists_fills hr behind
        have hl : after.length < (c :: rest).length := by
          have ho : 0 < opener.length := List.length_pos_iff.mpr hn
          rw [← hb, List.length_append, List.length_append]
          omega
        obtain ⟨parts, hp⟩ := ih after.length hl after rfl
        rw [← hb] at ho ⊢
        exact ⟨.segment region (opener ++ body) :: parts, .segment ho hf hp⟩

/-! The opener at the front of a text decides which rule its decomposition begins with. -/

theorem Segmented.of_nil {parts : List Part} (h : Segmented language [] parts) : parts = [] := by
  generalize ht : ([] : Text) = t at h
  cases h with
  | nil => rfl
  | code => simp at ht
  | segment ho =>
    have hn := (openers_spec language _ (List.mem_of_find?_eq_some ho)).1
    exact absurd (List.append_eq_nil_iff.mp ht.symm).1 hn

theorem Segmented.of_none {c : Char} {rest : Text} {parts : List Part}
    (h : Segmented language (c :: rest) parts) (ho : opener? language (c :: rest) = none) :
    ∃ more, parts = .code c :: more ∧ Segmented language rest more := by
  generalize ht : c :: rest = t at h
  cases h with
  | nil => simp at ht
  | code _ h =>
    obtain ⟨rfl, rfl⟩ := List.cons.inj ht
    exact ⟨_, rfl, h⟩
  | segment ho' => rw [← ht, ho] at ho'; simp at ho'

theorem Segmented.of_some {t opener : Text} {region : Region} {parts : List Part}
    (h : Segmented language t parts) (ho : opener? language t = some (opener, region)) :
    ∃ body rest more, t = opener ++ (body ++ rest) ∧ Fills region body rest ∧
      parts = .segment region (opener ++ body) :: more ∧ Segmented language rest more := by
  cases h with
  | nil => cases language <;> simp [opener?, openers] at ho
  | code ho' => rw [ho] at ho'; simp at ho'
  | segment ho' hf h =>
    rw [ho, Option.some.injEq, Prod.mk.injEq] at ho'
    obtain ⟨rfl, rfl⟩ := ho'
    exact ⟨_, _, _, rfl, hf, rfl, h⟩

/-- A text has no two decompositions. -/
theorem Segmented.unique {t : Text} {parts others : List Part} (h : Segmented language t parts)
    (h' : Segmented language t others) : others = parts := by
  induction h generalizing others with
  | nil => exact h'.of_nil
  | code ho _ ih =>
    obtain ⟨more, rfl, hm⟩ := h'.of_none ho
    rw [ih hm]
  | segment ho hf _ ih =>
    obtain ⟨body, rest, more, ht, hf', rfl, hm⟩ := h'.of_some ho
    obtain ⟨rfl, rfl⟩ := hf.unique hf' (List.append_cancel_left ht)
    rw [ih hm]

theorem Segmented.text_eq {t : Text} {parts : List Part} (h : Segmented language t parts) :
    parts.flatMap Part.text = t := by
  induction h with
  | nil => rfl
  | code _ _ ih => simp [Part.text, ih]
  | segment _ _ _ ih => simp [Part.text, ih]

/-- The scan keeps the code characters of a decomposition and no others. -/
theorem Segmented.keptFrom_eq {t : Text} {parts : List Part} (h : Segmented language t parts) :
    keptFrom language .code t = parts.flatMap Part.flags := by
  induction h with
  | nil => rfl
  | @code c rest _ ho _ ih =>
    have hs : opening? language c rest = none := by
      rw [opening?_eq, ho]
      rfl
    rw [keptFrom, keeps_code, step_code, hs, Option.getD_none, ih]
    rfl
  | segment ho hf _ ih =>
    rw [keptFrom_segment ho hf, ih]
    rfl

/-- What is shown of some parts is what their flags make of their text. -/
theorem flatMap_shown (parts : List Part) :
    ((parts.flatMap Part.text).zip (parts.flatMap Part.flags)).flatMap
        (fun (c, kept) => if kept then [c] else maskChar c) = parts.flatMap Part.shown := by
  induction parts with
  | nil => rfl
  | cons part parts ih =>
    have hp :
        (part.text.zip part.flags).flatMap (fun (c, kept) => if kept then [c] else maskChar c) =
          part.shown := by
      cases part with
      | code c => rfl
      | segment region t =>
        simp only [Part.text, Part.flags, Part.shown]
        induction t with
        | nil => rfl
        | cons c t iht => simpa using iht
    have hl : part.text.length = part.flags.length := by cases part <;> simp [Part.text, Part.flags]
    rw [List.flatMap_cons, List.flatMap_cons, List.zip_append hl, List.flatMap_append, hp, ih,
      List.flatMap_cons]

/-- Every text has exactly one decomposition into code characters and segments; the scan keeps its
code characters, and masks the characters of its segments. -/
theorem mask_exact (language : Language) (t : Text) :
    ∃ parts, Segmented language t parts ∧ (∀ others, Segmented language t others → others = parts) ∧
      parts.flatMap Part.text = t ∧ keptFrom language .code t = parts.flatMap Part.flags ∧
      mask language t = parts.flatMap Part.shown := by
  obtain ⟨parts, h⟩ := exists_segmented language t
  refine ⟨parts, h, fun _ => h.unique, h.text_eq, h.keptFrom_eq, ?_⟩
  calc mask language t
      = (t.zip (keptFrom language .code t)).flatMap fun (c, kept) =>
        if kept then [c] else maskChar c :=
        maskFrom_eq_kept .code t
    _ = ((parts.flatMap Part.text).zip (parts.flatMap Part.flags)).flatMap
          fun (c, kept) => if kept then [c] else maskChar c := by rw [h.text_eq, h.keptFrom_eq]
    _ = parts.flatMap Part.shown := flatMap_shown parts

/-- A verbatim literal knows no escapes but doubled quotes, and the opener of a comment does not end
it. -/
example :
    mask .csharp "f(@\"\\\"\"\", 'x') /*/ g */;".toList = "f(      ,    )         ;".toList := by
      decide

end SourceSurvey.Source
