import SourceSurvey.Proofs.Lead
import SourceSurvey.Source.Grammar

/-! The scope that a text declares. A declaration is looked for at the beginnings of lines, and
blanks in front of its word are passed over, newlines too. So a line that is blank declares what the
line below it does, and the first line that can be read as a declaration tells the scope. -/

namespace SourceSurvey

open Text Pattern Source

namespace Language

/-- The word that declares a scope. -/
def scopeWord : Language → Text
  | .csharp => "namespace".toList
  | .java => "package".toList

/-- What stands behind the word that declares a scope. -/
def scopeParts : Language → List (Pattern Slot)
  | .csharp =>
      [someBlanks, mark .scope (seq (one isNameStart) (star (typeCharacter ['.']))), blanks,
      any [sign ';', sign '\x7b']]
  | .java =>
      [someBlanks, mark .scope (seq identifier (star (seq (sign '.') identifier))),
        blanks, sign ';']

/-- A declaration of a scope with the blanks in front of it. -/
def declaration (language : Language) : Pattern Slot :=
  Pattern.all (blanks :: literal language.scopeWord :: language.scopeParts)

/-- The scope that is declared behind the blanks at a place, if a declaration stands there. -/
def declared (language : Language) (here : Cursor) : Option (Option Text) :=
  (language.declaration.run here stopHere).map fun e => (Match.mk here e).text? .scope

/-- The scope that is declared by the line that begins at a place. -/
def declaredAt (language : Language) (here : Cursor) : Option (Option Text) :=
  if here.atLineStart then language.declared here else none

/-- The scope that the first of the lines from a place on declares. -/
def declaredFrom (language : Language) (here : Cursor) : Option (Option Text) :=
  (here.placesFrom here.rest).findSome? language.declaredAt

end Language

namespace Source

variable {language : Language} {here : Cursor} {c : Char} {b t rest : Text}

theorem head?_matchesUnless_false {σ : Type} (p : Pattern σ) (t : Text) :
    (p.allMatches t).head? = (Cursor.places t).findSome? p.matchAt := by
  rw [allMatches, matchesUnless, candidates_eq, ← List.head?_filterMap]
  cases (Cursor.places t).filterMap p.matchAt with
  | nil => rfl
  | cons m ms => simp [select]

/-- The first line that declares a scope tells the scope of the text. -/
theorem scope?_eq (language : Language) (t : Text) :
    language.scope? t = (language.declaredFrom (Cursor.ofText t)).join := by
  rw [Language.declaredFrom]
  change _ = ((Cursor.places t).findSome? language.declaredAt).join
  have first :
      ∀ p : Pattern Slot,
        (∀ here, (p.matchAt here).map (·.text? .scope) = language.declaredAt here) →
      ((p.allMatches t).head?).bind
        (·.text? .scope) = ((Cursor.places t).findSome? language.declaredAt).join := by
    intro p hp
    rw [head?_matchesUnless_false, ← funext hp]
    induction Cursor.places t with
    | nil => rfl
    | cons here places ih =>
      rw [List.findSome?_cons, List.findSome?_cons]
      cases p.matchAt here with
      | none => exact ih
      | some m => rfl
  have start : ∀ (ps : List (Pattern Slot)) (here : Cursor),
      ((all (lineStart :: ps)).matchAt here).map (·.text? .scope) =
        if here.atLineStart then ((all ps).run here stopHere).map fun e =>
            (Match.mk here e).text? .scope else none := by
    intro ps here
    have passed : ∀ N : Next Slot, (all (lineStart :: ps)).run here N = if here.atLineStart
        then (all ps).run here N else none :=
      fun N => by rw [run_all_cons, run]
    rw [matchAt, passed]
    split
    · rw [Option.map_map]
      rfl
    · rfl
  cases language with
  | csharp =>
      exact first CSharp.scopePattern (start (blanks :: literal _ :: Language.scopeParts .csharp))
  | java => exact first Java.scopePattern (start (blanks :: literal _ :: Language.scopeParts .java))

/-- The word that declares a scope stands in front of no blank. -/
theorem shy_scopeWord (language : Language) (ps : List (Pattern Slot)) :
    Shy isBlank (Pattern.all (literal language.scopeWord :: ps)) := by
  have word : language.scopeWord ≠ [] ∧ language.scopeWord.head?.any isBlank = false := by
    cases language <;> decide
  exact (shy_literal word.1 word.2).all_cons

/-- A blank in front of a declaration makes no difference. -/
theorem run_declaration_blank (hr : here.rest = c :: rest) (hc : isBlank c = true) (N : Next Slot) :
    language.declaration.run here N = language.declaration.run (here.past c rest) N := by
  have stops := shy_scopeWord language language.scopeParts N here (by simpa [hr] using hc)
  rw [Language.declaration, run_all_cons, run_all_cons, blanks, run_star_one_cons hr hc, stops,
    Option.or_none]

theorem declared_blank (hb : Blank b) (hr : here.rest = b ++ rest) :
    language.declared here = language.declared (here.beyond b rest) := by
  induction b generalizing here with
  | nil =>
    rw [List.nil_append] at hr
    rw [← hr, Cursor.beyond_nil]
  | cons c b ih =>
    have hc : isBlank c = true := hb c List.mem_cons_self
    have later : (here.past c (b ++ rest)).rest = b ++ rest := rfl
    have rest := ih (fun d hd => hb d (List.mem_cons_of_mem c hd)) later
    rw [Cursor.past_eq_beyond, Cursor.beyond_beyond] at rest
    rw [Language.declared, run_declaration_blank hr hc]
    exact rest

theorem declaredFrom_cons (here : Cursor) (hr : here.rest = c :: rest) :
    language.declaredFrom here = (language.declaredAt here).or
      (language.declaredFrom (here.past c rest)) := by
  rw [Language.declaredFrom, hr, Cursor.placesFrom, List.findSome?_cons]
  cases language.declaredAt here <;> rfl

/-- What a line declares is not looked for twice. -/
theorem or_declaredFrom {there : Cursor} (h : language.declared here = language.declared there)
    (hl : there.atLineStart = true) :
    (language.declaredAt here).or (language.declaredFrom there) = language.declaredFrom there := by
  have first :
      language.declaredAt here = none ∨ language.declaredAt here = language.declaredAt there := by
    rw [Language.declaredAt, Language.declaredAt, if_pos hl, h]
    split
    · exact .inr rfl
    · exact .inl rfl
  rcases first with h | h
  · rw [h, Option.none_or]
  · rw [h]
    cases hr : there.rest with
    | nil =>
      have alone : language.declaredFrom there = language.declaredAt there := by
        rw [Language.declaredFrom, hr, Cursor.placesFrom, List.findSome?_singleton]
      rw [alone, Option.or_self]
    | cons c rest => rw [declaredFrom_cons there hr, ← Option.or_assoc, Option.or_self]

/-- A line that is blank declares what stands behind it. -/
theorem declaredFrom_blank (here : Cursor) (hb : Blank b) (hr : here.rest = b ++ '\n' :: rest) :
    language.declaredFrom here = language.declaredFrom (here.beyond (b ++ ['\n']) rest) := by
  have newline : Blank ['\n'] := fun c hc => by rw [List.mem_singleton.mp hc]; decide
  have line : ∀ b : Text, (here.beyond (b ++ ['\n']) rest).atLineStart = true := fun b => by
    simp [Cursor.atLineStart, Cursor.beyond]
  have passed : language.declared here = language.declared (here.beyond (b ++ ['\n']) rest) :=
    declared_blank (hb.append newline) (by rw [hr, List.append_assoc, List.singleton_append])
  induction b generalizing here with
  | nil =>
    have first : language.declaredFrom here = _ := declaredFrom_cons here hr
    exact first.trans (or_declaredFrom passed (line []))
  | cons c b ih =>
    have hb' : Blank b := fun d hd => hb d (List.mem_cons_of_mem c hd)
    have later := ih (here.beyond [c] (b ++ '\n' :: rest)) hb' rfl
      (fun b => by simp [Cursor.atLineStart, Cursor.beyond])
      (declared_blank (hb'.append newline) (by simp))
    rw [Cursor.beyond_beyond, List.singleton_append, ← List.cons_append] at later
    have first : language.declaredFrom here =
        (language.declaredAt here).or
          (language.declaredFrom (here.beyond [c] (b ++ '\n' :: rest))) := declaredFrom_cons here hr
    rw [first, later, or_declaredFrom passed (line _)]

end Source
end SourceSurvey
