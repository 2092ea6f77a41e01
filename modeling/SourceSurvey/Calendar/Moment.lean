import SourceSurvey.Text.Basic

/-! Moments and how they are written. A moment is a count of seconds from the start of the year
1970, in the same time everywhere; its date is found by walking over whole months. -/

namespace SourceSurvey

/-- Every fourth year is a leap year, but of the full centuries only every fourth. -/
def isLeapYear (year : Nat) : Bool := year % 4 = 0 && (year % 100 ≠ 0 || year % 400 = 0)

def monthLength (year month : Nat) : Nat :=
  if month = 2 then (if isLeapYear year then 29 else 28)
  else if month ∈ [4, 6, 9, 11] then 30
  else 31

theorem monthLength_pos (year month : Nat) : 0 < monthLength year month := by
  unfold monthLength; split <;> split <;> decide

/-- Months and days count from one. -/
structure Date where
  year : Nat
  month : Nat
  day : Nat
deriving DecidableEq, Repr

/-- The date some days after the first of a month. -/
def Date.after (year month days : Nat) : Date :=
  if days < monthLength year month then ⟨year, month, days + 1⟩
  else if month < 12 then Date.after year (month + 1) (days - monthLength year month)
  else Date.after (year + 1) 1 (days - monthLength year month)
termination_by days
decreasing_by all_goals have := monthLength_pos year month; omega

/-- A number with zeros in front up to a width. -/
def padded (width n : Nat) : Text := (Nat.toDigits 10 n).leftpad width '0'

structure Moment where
  seconds : Nat
deriving DecidableEq, Repr

namespace Moment

def date (m : Moment) : Date := Date.after 1970 1 (m.seconds / 86400)

/-- The year, month and day as written. -/
def dateParts (m : Moment) : List Text :=
  [padded 4 m.date.year, padded 2 m.date.month, padded 2 m.date.day]

/-- The hour, minute and second as written. -/
def clockParts (m : Moment) : List Text :=
  [padded 2 (m.seconds / 3600 % 24), padded 2 (m.seconds / 60 % 60), padded 2 (m.seconds % 60)]

/-- The moment as a report states it, such as `2024-02-29T08:05:00Z`. -/
def stated (m : Moment) : Text :=
  ['-'].intercalate m.dateParts ++ ['T'] ++ [':'].intercalate m.clockParts ++ ['Z']

/-- The moment as the name of a report holds it, in fourteen digits. -/
def stamp (m : Moment) : Text := (m.dateParts ++ m.clockParts).flatten

end Moment

end SourceSurvey
