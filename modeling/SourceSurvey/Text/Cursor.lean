import SourceSurvey.Text.Word

/-! Places in a text, each with the text on its two sides. The text before a place is kept nearest
character first, so that looking back from a place takes no more steps than the characters seen. -/

namespace SourceSurvey

open Text

/-- The text before an offset, nearest character first. -/
def Text.back (t : Text) (offset : Nat) : Text := (takeBytes offset t).reverse

/-- A place in a text: the text before it, nearest character first, its byte offset, and the text
behind it. -/
structure Cursor where
  before : Text
  offset : Nat
  rest : Text
deriving DecidableEq, Repr

namespace Cursor

def ofText (t : Text) : Cursor := ⟨[], 0, t⟩

/-- The place behind a character that is read here. -/
def past (here : Cursor) (c : Char) (rest : Text) : Cursor :=
  ⟨c :: here.before, here.offset + c.utf8Size, rest⟩

/-- This place and the ones behind it, given the text behind it. -/
def placesFrom (here : Cursor) : Text → List Cursor
  | [] => [here]
  | c :: rest => here :: placesFrom (here.past c rest) rest

/-- The places of a text: before every character, and at its end. -/
def places (t : Text) : List Cursor := placesFrom (ofText t) t

/-- Whether exactly one side of this place is a word character. -/
def atWordEdge (here : Cursor) : Bool := here.before.head?.any isWord != here.rest.head?.any isWord

/-- Whether no character of the line lies before this place. -/
def atLineStart (here : Cursor) : Bool := here.before.head?.all (· = '\n')

/-- A place of a text: the text around it is that text, and its offset counts the bytes before it.
-/
def IsIn (here : Cursor) (t : Text) : Prop :=
  here.before.reverse ++ here.rest = t ∧ here.offset = byteLength here.before.reverse

theorem isIn_ofText (t : Text) : (ofText t).IsIn t := ⟨rfl, rfl⟩

theorem IsIn.past {here : Cursor} {t : Text} {c : Char} {rest : Text} (h : here.IsIn t)
    (hr : here.rest = c :: rest) :
    (here.past c rest).IsIn t := by
  obtain ⟨ht, ho⟩ := h
  refine ⟨by simp [Cursor.past, ← ht, hr], ?_⟩
  simp [Cursor.past, byteLength_append, byteLength, ho]

theorem isIn_of_mem_placesFrom {here there : Cursor} {rest t : Text} (h : here.IsIn t)
    (hr : here.rest = rest) (hm : there ∈ here.placesFrom rest) : there.IsIn t := by
  induction rest generalizing here with
  | nil => rw [placesFrom, List.mem_singleton] at hm; exact hm ▸ h
  | cons c rest ih =>
    rw [placesFrom, List.mem_cons] at hm
    rcases hm with rfl | hm
    · exact h
    · exact ih (h.past hr) rfl hm

theorem isIn_of_mem_places {here : Cursor} {t : Text} (h : here ∈ places t) : here.IsIn t :=
  isIn_of_mem_placesFrom (isIn_ofText t) rfl h

/-- The text before a place is the text before its offset. -/
theorem IsIn.before_eq {here : Cursor} {t : Text} (h : here.IsIn t) :
    here.before = t.back here.offset := by
  obtain ⟨ht, ho⟩ := h
  rw [Text.back, ho, ← ht, takeBytes_append, List.reverse_reverse]

end Cursor

end SourceSurvey
