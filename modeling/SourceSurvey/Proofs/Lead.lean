import SourceSurvey.Proofs.Shy
import SourceSurvey.Proofs.Within

/-! A text with one more character in front. Where the character stands in no word, a pattern reads
behind it what it reads without it, at places that are moved by its bytes; only the start of a line
is not where it was, unless the character is a newline. So the matches of a pattern that cannot
begin with the character are the matches of the text, moved. -/

namespace SourceSurvey

open Text

namespace Cursor

/-- The place in the text with a further character in front. -/
def behind (lead : Char) (here : Cursor) : Cursor :=
  ⟨here.before ++ [lead], lead.utf8Size + here.offset, here.rest⟩

variable {lead : Char} {here : Cursor}

@[simp] theorem rest_behind : (here.behind lead).rest = here.rest := rfl

theorem behind_eq (lead : Char) : behind lead = within [lead] [] := funext fun here => by
  simp [behind, within, byteLength]

theorem past_behind (c : Char) (rest : Text) :
    (here.behind lead).past c rest = (here.past c rest).behind lead := by
  simp [behind, past, Nat.add_assoc]

end Cursor

namespace Pattern

variable {σ : Type} {lead : Char}

def Ending.behind (lead : Char) (e : Ending σ) : Ending σ :=
  ⟨e.last.behind lead, e.begins.map fun m => (m.1, m.2.behind lead), e.ends.map fun m =>
    (m.1, m.2.behind lead)⟩

def Match.behind (lead : Char) (m : Match σ) : Match σ :=
  ⟨m.first.behind lead, m.ending.behind lead⟩

theorem Ending.behind_eq (lead : Char) :
    Ending.behind lead = (Ending.within [lead] [] : Ending σ → Ending σ) :=
  funext fun e => by rw [behind, within, Cursor.behind_eq]

theorem Match.behind_eq (lead : Char) :
    Match.behind lead = (Match.within [lead] [] : Match σ → Match σ) :=
  funext fun m => by rw [behind, within, Cursor.behind_eq, Ending.behind_eq]

theorem noWord_last (hw : isWord lead = false) : ∀ c ∈ [lead].getLast?,
    isWord c = false := fun _ hc =>
  Option.mem_some_iff.mp hc ▸ hw

/-- What is read behind the character is what is read without it, moved. -/
theorem run_behind (hw : isWord lead = false) {p : Pattern σ} (hp : p.looksForLine = false)
    {N N' : Next σ}
    (hN : ∀ here, N' (here.behind lead) = (N here).map (.behind lead)) (here : Cursor) :
    p.run (here.behind lead) N' = (p.run here N).map (.behind lead) := by
  rw [Cursor.behind_eq, Ending.behind_eq] at *
  exact ((Moves.mk hN (.inl rfl)).run (noWord_last hw) hp).moved here

/-! ### Matches -/

theorem lookup_behind [DecidableEq σ] (marks : List (σ × Cursor)) (name : σ) :
    (marks.map fun m => (m.1, m.2.behind lead)).lookup name = (marks.lookup name).map
      (.behind lead) := by
  rw [Cursor.behind_eq]
  exact lookup_within marks name

/-- A part has the same text wherever the match is moved. -/
theorem Match.text?_behind [DecidableEq σ] (m : Match σ) (name : σ) :
    (m.behind lead).text? name = m.text? name := by
  rw [text?, span?, text?, span?, behind, Ending.behind, lookup_behind, lookup_behind]
  cases m.ending.begins.lookup name with
  | none => rfl
  | some first =>
    cases m.ending.ends.lookup name with
    | none => rfl
    | some last =>
      simp [Span.text, Span.stop, Span.start, Cursor.behind, Nat.add_sub_add_left]

theorem matchesUnless_cons (hw : isWord lead = false) {p : Pattern σ} (hp : p.looksForLine = false)
    (hs : Shy (· = lead) p) {refuses refuses' : Cursor → Bool}
    (hr : ∀ here, refuses' (here.behind lead) = refuses here) (t : Text) :
    p.matchesUnless refuses' (lead :: t) = (p.matchesUnless refuses t).map (.behind lead) := by
  have first : ∀ here : Cursor, here.IsIn [lead] → here.rest ≠ [] →
      p.matchAt (here.within [] t) = none ∨ refuses' (here.within [] t) = true := by
    intro here hin hn
    obtain ⟨c, rest, hc⟩ := List.exists_cons_of_ne_nil hn
    have head : c = lead := by
      have whole := hin.1
      rw [hc, List.append_eq_singleton_iff] at whole
      simp_all
    exact .inl (by rw [matchAt, hs _ _ (by simp [hc, head]), Option.map_none])
  have moved : (fun here => refuses' (here.within [lead] [])) = refuses := by
    rw [← Cursor.behind_eq]
    exact funext hr
  have skipped : p.matchesUnless refuses' ([lead] ++ t) = _ :=
    matchesUnless_skip hp (noWord_last hw) first
  rw [List.singleton_append, moved] at skipped
  rw [skipped, Match.behind_eq]

end Pattern

end SourceSurvey
