import SourceSurvey.Pattern.Outlook

/-! Searches with a pattern. Of the matches that start at the places of a text, a search takes the
first, then the first that starts behind its end, and so on; behind a match of no characters it
goes on at the next place. A search may refuse matches by the place at which they start. -/

namespace SourceSurvey.Pattern

open Text

/-- A match: where it starts, and how it goes on from there. -/
structure Match (σ : Type) where
  first : Cursor
  ending : Ending σ

namespace Match

variable {σ : Type}

def whole (m : Match σ) : Span := ⟨m.first, m.ending.last⟩

def start (m : Match σ) : Nat := m.first.offset

def stop (m : Match σ) : Nat := m.ending.last.offset

variable [DecidableEq σ]

/-- The first stretch that was marked with a name. -/
def span? (m : Match σ) (name : σ) : Option Span := do
  return ⟨← m.ending.begins.lookup name, ← m.ending.ends.lookup name⟩

def text? (m : Match σ) (name : σ) : Option Text := (m.span? name).map (·.text)

/-- The marked text, empty where the part was not there. -/
def text (m : Match σ) (name : σ) : Text := (m.text? name).getD []

end Match

variable {σ : Type}

/-- The match that starts at a place. -/
def matchAt (p : Pattern σ) (here : Cursor) : Option (Match σ) :=
  (p.run here fun there => some (.plain there)).map (Match.mk here)

/-- The matches that start at the places of a text, at most one at each. -/
def candidates (p : Pattern σ) (t : Text) : List (Match σ) :=
  let places := Cursor.places t
  let endings := (p.foreseeAll (fun there => some (.plain there)) places).2
  (places.zip endings).filterMap fun (here, ending) => ending.map (Match.mk here)

/-- Every place has as a candidate the match that starts there. -/
theorem candidates_eq (p : Pattern σ) (t : Text) :
    p.candidates t = (Cursor.places t).filterMap p.matchAt := by
  simp only [candidates, foreseeAll_eq_run]
  induction Cursor.places t with
  | nil => rfl
  | cons here places ih =>
      simp only [List.map_cons, List.zip_cons_cons, List.filterMap_cons, matchAt, ih]

/-- The offset from which the next match may start. -/
def resumeAfter (m : Match σ) : Nat := if m.start < m.stop then m.stop else m.stop + 1

/-- The matches that a search takes from the offset `resume` on. -/
def select (refuses : Cursor → Bool) : Nat → List (Match σ) → List (Match σ)
  | _, [] => []
  | resume, m :: ms =>
    if m.start < resume || refuses m.first then select refuses resume ms
    else m :: select refuses (resumeAfter m) ms

/-- The matches of a pattern that do not start at a refused place. -/
def matchesUnless (p : Pattern σ) (refuses : Cursor → Bool) (t : Text) : List (Match σ) :=
  select refuses 0 (p.candidates t)

/-- The matches of a pattern from left to right, none overlapping another. -/
def allMatches (p : Pattern σ) (t : Text) : List (Match σ) := p.matchesUnless (fun _ => false) t

/-- The text from an offset on with some matches replaced. -/
def replaceFrom (filler : Text) (offset : Nat) (t : Text) : List (Match σ) → Text
  | [] => t
  | m :: ms =>
      takeBytes (m.start - offset) t ++ filler ++ replaceFrom filler m.stop m.ending.last.rest ms

/-- The text with every match of a pattern replaced. -/
def replaceAll (p : Pattern σ) (filler : Text) (t : Text) : Text :=
  replaceFrom filler 0 t (p.allMatches t)

/-- The end of a match that must reach the end of the text. -/
def atEnd : Next σ := fun there => if there.rest = [] then some (.plain there) else none

/-- Whether a pattern matches the whole of a text. -/
def matchesAll (p : Pattern σ) (t : Text) : Bool :=
  (p.foreseeAll atEnd (Cursor.places t)).2.head?.any Option.isSome

end SourceSurvey.Pattern
