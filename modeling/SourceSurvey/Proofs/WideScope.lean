import SourceSurvey.Proofs.WideHeader

/-! The scope of a text and of the text with one more blank. A declaration is read in both texts
where one begins, on a line of either text, and in front of the newline nothing is declared that is
not declared behind it. -/

namespace SourceSurvey.Source

open Text Pattern

namespace Widening

variable {g : Widening} {P : Cursor → Prop} {N N' : Next Slot} {language : Language}
  {here here' : Cursor}

/-- Rounds that cannot begin with a blank. -/
theorem strides_of_shy {body : Pattern Slot} (hs : Shy Text.isBlank body)
    (hb : ∀ N N' : Next Slot, Agree g Anywhere N N' →
    Agree g Anywhere (body.run · N) (body.run · N')) :
    Strides g Anywhere (fun _ => false) body where
  gap N here c rest hr hc := by
    rw [hs N here (by simpa [hr] using hc)]
    rfl
  step N N' h here here' hbe hp _ := hb N N' h here here' hbe hp
  wide h := absurd h (by simp)
  keeps _ _ _ _ _ _ := trivial

theorem agree_declaration (language : Language) :
    Agree g Anywhere (language.declaration.run · stopHere)
      (language.declaration.run · stopHere) := by
  have word : Solid language.scopeWord := by cases language <;> decide
  have name : ∀ {ps : List (Pattern Slot)} {body : Pattern Slot}, Shy Text.isBlank body →
      (∀ N N' : Next Slot, Agree g Anywhere N N' →
        Agree g Anywhere (body.run · N) (body.run · N')) →
      Agree g Anywhere ((all ps).run · stopHere) ((all ps).run · stopHere) →
      Agree g Anywhere
        ((all (blanks :: literal language.scopeWord :: someBlanks :: mark .scope
        body :: ps)).run · stopHere)
        ((all (blanks :: literal language.scopeWord :: someBlanks :: mark .scope
          body :: ps)).run · stopHere) :=
    fun hs hb hps => agree_all_cons <| agree_blanks (fun _ _ _ _ _ => trivial) <| agree_all_cons <|
      agree_literal (Q := Anywhere) word
        (agree_all_cons <| agree_someBlanks (Q := Anywhere) (fun _ _ _ _ => trivial)
        (agree_all_cons <| agree_mark (hb _ _ hps.markEnd)) (hs.mark.all_cons.shuns _))
          fun _ _ _ _ => trivial
  cases language with
  | csharp =>
    have ending :
        Agree g Anywhere
          ((all [blanks, oneOf [[';'], ['\x7b']]] : Pattern Slot).run · stopHere) _ :=
      agree_all_cons <| agree_blanks (fun _ _ _ _ _ => trivial) <| agree_oneOf
        (by decide) agree_stopHere
    refine name (shy_nameStart outside_isBlank).seq (fun N N' h => ?_) ending
    exact agree_one (fun c hc => isBlank_of_isNameStart hc)
      (agree_star (strides_one (fun hn => absurd hn (by decide)) fun _ _ _ _ _ _ => trivial) h)
        fun _ _ _ _ _ _ => trivial
  | java =>
    have ending : Agree g Anywhere ((all [blanks, sign ';'] : Pattern Slot).run · stopHere) _ :=
      agree_all_cons <| agree_blanks (fun _ _ _ _ _ => trivial) <| agree_sign (Q := Anywhere)
        (by decide) agree_stopHere fun _ _ _ _ => trivial
    refine name (shy_nameStart outside_isBlank).seq.seq (fun N N' h => ?_) ending
    have part : ∀ N N' : Next Slot, Agree g Anywhere N N' →
        Agree g Anywhere ((seq (sign '.') identifier).run · N)
          ((seq (sign '.') identifier).run · N') := fun N N' h =>
      agree_sign (Q := Anywhere) (by decide) (agree_identifier h) fun _ _ _ _ => trivial
    exact agree_identifier (agree_star (strides_of_shy (shy_sign (by decide)).seq part) h)

/-- Where places stand beside each other, the same is declared. -/
theorem Beside.declared_eq (h : g.Beside here here') :
    language.declared here = language.declared here' := by
  have endings := agree_declaration language here here' h trivial
  have told : ∀ (here : Cursor) (e : Ending Slot), language.declaration.run here stopHere = some e →
      ∃ w, Solid w ∧ (Match.mk here e).text? .scope = some w :=
        fun _ _ => (marksSolid_declaration language).text?_eq
  rw [Language.declared, Language.declared]
  beta_reduce at endings
  generalize he : language.declaration.run here stopHere = e, he' :
    language.declaration.run here' stopHere = e' at endings
  cases endings with
  | none => rfl
  | @some e e' ha =>
    obtain ⟨w, hw, ht⟩ := told _ _ he
    obtain ⟨w', hw', ht'⟩ := told _ _ he'
    have part :
        Option.Rel (Widened g.blank) ((Match.mk here e).text? .scope)
          ((Match.mk here' e').text? .scope) :=
      Alike.rel_text? ha .scope
    rw [ht, ht'] at part
    cases part with
    | some hp => rw [Option.map_some, Option.map_some, ht, ht', hp.eq_of_solid g.proper hw hw']

theorem Beside.declaredAt_eq (language : Language) (h : g.Beside here here')
    (hl : here.atLineStart = here'.atLineStart) :
    language.declaredAt here = language.declaredAt here' := by
  rw [Language.declaredAt, Language.declaredAt, hl, h.declared_eq]

/-- Behind the newline the two texts declare the same. -/
theorem declaredFrom_past (language : Language) {v u : Text} (h : v ++ u = g.behind) :
    language.declaredFrom (.between (g.front ++ '\n' :: v) u) =
      language.declaredFrom (.between (g.front ++ g.blank :: '\n' :: v) u) := by
  have line : ∀ v u : Text, (Cursor.between (g.front ++ '\n' :: v) u).atLineStart =
      (Cursor.between (g.front ++ g.blank :: '\n' :: v) u).atLineStart := fun v u => by
    simp only [Cursor.atLineStart, Cursor.between, List.reverse_append, List.reverse_cons,
      List.append_assoc]
    cases v.reverse <;> rfl
  have first := Beside.declaredAt_eq language (.past h) (line v u)
  induction u generalizing v with
  | nil =>
      exact (List.findSome?_singleton ..).trans (first.trans (List.findSome?_singleton ..).symm)
  | cons c u ih =>
    have split : (v ++ [c]) ++ u = g.behind := by rw [← h, List.append_assoc, List.singleton_append]
    have later := ih split (Beside.declaredAt_eq language (.past split) (line _ u))
    rw [declaredFrom_cons _ rfl,
      declaredFrom_cons (.between (g.front ++ g.blank :: '\n' :: v) (c :: u)) rfl, first,
      Cursor.past_between, Cursor.past_between]
    simpa using congrArg _ later

/-- In front of the newline, too. -/
theorem declaredFrom_ahead (language : Language) {v u : Text} (h : v ++ u = g.front) :
    language.declaredFrom (.between v (u ++ '\n' :: g.behind)) =
      language.declaredFrom (.between v (u ++ g.blank :: '\n' :: g.behind)) := by
  induction u generalizing v with
  | nil =>
    obtain rfl : v = g.front := by rwa [List.append_nil] at h
    have narrow : language.declaredFrom g.gap = _ :=
      declaredFrom_blank (b := []) g.gap (fun c hc => absurd hc List.not_mem_nil) rfl
    have wide : language.declaredFrom g.wideGap = _ :=
      declaredFrom_blank (b := [g.blank]) g.wideGap (blank_singleton g.proper) rfl
    have behind := declaredFrom_past language (List.nil_append g.behind)
    refine narrow.trans (Eq.trans ?_ wide.symm)
    simpa [Cursor.between, Cursor.beyond, gap, wideGap, byteLength_append] using behind
  | cons c u ih =>
    have split : (v ++ [c]) ++ u = g.front := by rw [← h, List.append_assoc, List.singleton_append]
    have first := Beside.declaredAt_eq language (.ahead h) rfl
    have later := ih split
    rw [List.cons_append, List.cons_append] at first ⊢
    rw [declaredFrom_cons _ rfl,
      declaredFrom_cons (.between v (c :: (u ++ g.blank :: '\n' :: g.behind))) rfl,
      Cursor.past_between, Cursor.past_between, later, first]

theorem scope?_eq : language.scope? g.narrow = language.scope? g.wide := by
  have same := declaredFrom_ahead language (v := []) (List.nil_append g.front)
  rw [Source.scope?_eq, Source.scope?_eq]
  exact congrArg Option.join same

end Widening

end SourceSurvey.Source
