import SourceSurvey.Proofs.Member
import SourceSurvey.Proofs.Scope

/-! Parts that hold no blank. A pattern of which no character is a blank reads none, so the text of
a part that such a pattern reads holds none. The names in headers are parts of this kind; so are the
declaring word in Java, the sign that ends the header of a C# type, and the scope that a text
declares. -/

namespace SourceSurvey

open Text

namespace Pattern

variable {σ : Type} {p q : Pattern σ} {ps : List (Pattern σ)} {here there : Cursor}
  {e e' : Ending σ} {t : Text}

/-- A pattern of which no character is a blank. -/
def NoBlank : Pattern σ → Prop
  | one accepts => ∀ c, accepts c = true → isBlank c = false
  | seq first second => first.NoBlank ∧ second.NoBlank
  | alt first second => first.NoBlank ∧ second.NoBlank
  | star body => body.NoBlank
  | lazyStar body => body.NoBlank
  | mark _ body => body.NoBlank
  | nothing => True
  | wordEdge => True
  | lineStart => True

theorem Leads.solid (h : p.Leads here e there e') (hp : p.NoBlank) :
    ∃ w, Solid w ∧ here.rest = w ++ there.rest := by
  have none : Solid [] := fun c hc => absurd hc List.not_mem_nil
  have join : ∀ {a b c : Text}, (∃ w, Solid w ∧ a = w ++ b) → (∃ w, Solid w ∧ b = w ++ c) →
      ∃ w, Solid w ∧ a = w ++ c := by
    rintro _ _ c ⟨v, hv, rfl⟩ ⟨w, hw, rfl⟩
    exact ⟨v ++ w, List.forall_mem_append.mpr ⟨hv, hw⟩, (List.append_assoc ..).symm⟩
  induction h with
  | nothing | starDone | lazyDone | wordEdge | lineStart => exact ⟨[], none, rfl⟩
  | one ha hr => exact ⟨[_], fun c hc => List.mem_singleton.mp hc ▸ hp _ ha, hr⟩
  | seq _ _ ih ih' => exact join (ih hp.1) (ih' hp.2)
  | left _ ih => exact ih hp.1
  | right _ ih => exact ih hp.2
  | starRound _ _ _ ih ih' | lazyRound _ _ _ ih ih' => exact join (ih hp) (ih' hp)
  | mark _ ih => exact ih hp

theorem noBlank_sign {c : Char} (hc : isBlank c = false) :
    (sign c : Pattern σ).NoBlank := fun d hd => by
  rwa [of_decide_eq_true hd]

theorem noBlank_all (h : ∀ p ∈ ps, p.NoBlank) : (all ps).NoBlank := by
  induction ps with
  | nil => trivial
  | cons p ps ih =>
    have later := ih fun q hq => h q (List.mem_cons_of_mem p hq)
    cases ps with
    | nil => exact h p List.mem_cons_self
    | cons q ps => exact ⟨h p List.mem_cons_self, later⟩

theorem noBlank_any (h : ∀ p ∈ ps, p.NoBlank) : (any ps).NoBlank := by
  induction ps with
  | nil => exact fun _ hc => absurd hc (by simp)
  | cons p ps ih =>
    have later := ih fun q hq => h q (List.mem_cons_of_mem p hq)
    cases ps with
    | nil => exact h p List.mem_cons_self
    | cons q ps => exact ⟨h p List.mem_cons_self, later⟩

theorem noBlank_literal (ht : Solid t) : (literal t : Pattern σ).NoBlank := by
  refine noBlank_all fun p hp => ?_
  obtain ⟨c, hc, rfl⟩ := List.mem_map.mp hp
  exact noBlank_sign (ht c hc)

theorem noBlank_oneOf {words : List Text} (hw : ∀ w ∈ words, Solid w) :
    (oneOf words : Pattern σ).NoBlank := by
  refine noBlank_any fun p hp => ?_
  obtain ⟨w, hm, rfl⟩ := List.mem_map.mp hp
  exact noBlank_literal (hw w hm)

theorem noBlank_identifier : (identifier : Pattern σ).NoBlank :=
  ⟨fun _ hc => isBlank_of_isNameStart hc, fun _ hc => isBlank_of_isWord hc⟩

/-! ### Marked parts -/

section Marks

variable [DecidableEq σ] {name : σ} {body : Pattern σ}

/-- A pattern of which every reading marks a part that holds no blank. -/
def MarksSolid (name : σ) (p : Pattern σ) : Prop :=
  ∀ here e there e', p.Leads here e there e' →
    ∃ first last w, e.Marks name ⟨first, last⟩ ∧ Solid w ∧
    first.rest = w ++ last.rest ∧ last = first.beyond w last.rest

theorem marksSolid_mark (hb : body.NoBlank) (hn : name ∉ body.marks) :
    MarksSolid name (all (mark name body :: ps)) := by
  intro here e there e' h
  obtain ⟨mid, m, hm, -⟩ := leads_all_cons.mp h
  obtain ⟨w, hw, hr⟩ := hm.solid hb
  exact ⟨here, mid, w, hm.marks_mark hn, hw, hr, hm.eq_beyond hr⟩

theorem marksSolid_cons (hn : name ∉ p.marks) (h : MarksSolid name (all ps)) :
    MarksSolid name (all (p :: ps)) := by
  intro here e there e' hl
  obtain ⟨mid, m, hm, later⟩ := leads_all_cons.mp hl
  obtain ⟨first, last, w, marks, rest⟩ := h mid m there e' later
  exact ⟨first, last, w, (hm.marks_iff hn).mpr marks, rest⟩

/-- The text of a marked part is what was read there. -/
theorem Match.text?_of_marks {m : Match σ} {first last : Cursor} {w : Text}
    (h : m.ending.Marks name ⟨first, last⟩)
    (hr : first.rest = w ++ last.rest) (hl : last = first.beyond w last.rest) :
    m.text? name = some w := by
  rw [Match.text?, Match.span?_of_marks h, Option.map_some, Span.text, Span.stop,
    Span.start, hl, hr]
  simp [Cursor.beyond, takeBytes_append]

theorem MarksSolid.text?_eq (h : MarksSolid name p) {next : Next σ}
    (hr : p.run here next = some e) :
    ∃ w, Solid w ∧ (Match.mk here e).text? name = some w := by
  obtain ⟨there, e', -, hl⟩ := exists_leads_of_run hr
  obtain ⟨first, last, w, marks, hw, hrest, hlast⟩ := h here e there e' hl
  exact ⟨w, hw, Match.text?_of_marks marks hrest hlast⟩

theorem MarksSolid.text (h : MarksSolid name p) {m : Match σ} (hm : p.matchAt here = some m) :
    Solid (m.text name) := by
  obtain ⟨e, he, rfl⟩ := Option.map_eq_some_iff.mp hm
  obtain ⟨w, hw, ht⟩ := h.text?_eq he
  rw [Match.text, ht]
  exact hw

end Marks

end Pattern

namespace Source

open Pattern

variable {ps : List (Pattern Slot)}

theorem marksSolid_named : MarksSolid .name (all (named :: ps)) :=
  marksSolid_mark noBlank_identifier (by decide)

theorem CSharp.marksSolid_typeName : MarksSolid .name CSharp.typePattern :=
  marksSolid_cons (by decide) <| marksSolid_cons (by decide) <| marksSolid_cons (by decide) <|
    marksSolid_cons (by decide) marksSolid_named

theorem CSharp.marksSolid_ending : MarksSolid .ending CSharp.typePattern := by
  have signs : (oneOf [['\x7b'], [';']] : Pattern Slot).NoBlank := noBlank_oneOf (by decide)
  have ending :
      MarksSolid .ending (all [mark .ending (any [sign '\x7b', sign ';'])] : Pattern Slot) :=
    marksSolid_mark signs (by decide)
  exact marksSolid_cons (by decide) <| marksSolid_cons (by decide) <| marksSolid_cons (by decide) <|
    marksSolid_cons (by decide) <| marksSolid_cons (by decide) <| marksSolid_cons (by decide) <|
    marksSolid_cons (by decide) <| marksSolid_cons (by decide) <| marksSolid_cons (by decide) <|
    marksSolid_cons (by decide) ending

theorem CSharp.marksSolid_methodName : MarksSolid .name CSharp.methodPattern :=
  marksSolid_cons (by decide) <| marksSolid_cons (by decide) <| marksSolid_cons (by decide) <|
    marksSolid_cons (by decide) marksSolid_named

theorem CSharp.marksSolid_constructorName : MarksSolid .name CSharp.constructorPattern :=
  marksSolid_cons (by decide) <| marksSolid_cons (by decide) marksSolid_named

theorem Java.marksSolid_typeName : MarksSolid .name Java.typePattern :=
  marksSolid_cons (by decide) <| marksSolid_cons (by decide) <| marksSolid_cons
    (by decide) marksSolid_named

theorem Java.marksSolid_kind : MarksSolid .kind Java.typePattern :=
  marksSolid_cons (by decide) <| marksSolid_mark
    ⟨noBlank_literal (by decide), trivial, noBlank_oneOf (by decide)⟩ (by decide)

theorem Java.marksSolid_methodName : MarksSolid .name Java.methodPattern :=
  marksSolid_cons (by decide) <| marksSolid_cons (by decide) <| marksSolid_cons (by decide) <|
    marksSolid_cons (by decide) <| marksSolid_cons (by decide) marksSolid_named

theorem Java.marksSolid_constructorName : MarksSolid .name Java.constructorPattern :=
  marksSolid_cons (by decide) <| marksSolid_cons (by decide) <| marksSolid_cons
    (by decide) marksSolid_named

theorem marksSolid_declaration (language : Language) : MarksSolid .scope language.declaration := by
  have dot : isBlank '.' = false := by decide
  cases language with
  | csharp =>
    have letters : (seq (one isNameStart) (star (typeCharacter ['.'])) : Pattern Slot).NoBlank := by
      refine ⟨fun _ hc => isBlank_of_isNameStart hc, fun c hc => ?_⟩
      rcases (Bool.or_eq_true ..).mp hc with hc | hc
      · exact isBlank_of_isWord hc
      · rw [List.mem_singleton.mp (List.contains_iff_mem.mp hc), dot]
    exact marksSolid_cons (by decide) <| marksSolid_cons
      (by decide) <| marksSolid_cons (by decide) <|
      marksSolid_mark letters (by decide)
  | java =>
    exact marksSolid_cons (by decide) <| marksSolid_cons
      (by decide) <| marksSolid_cons (by decide) <|
      marksSolid_mark ⟨noBlank_identifier, noBlank_sign dot, noBlank_identifier⟩ (by decide)

end Source

end SourceSurvey
