import SourceSurvey.CommandLine.Flag
import Mathlib.Data.List.Basic

/-! Settings that are made by groups of arguments. A group is a flag by itself, or a flag with the
argument behind it, whatever that one looks like. Reading from left to right takes one group after
another, so it either comes to the end and has the settings of the groups in order, or it stops at
the first place where no group stands, and the fault that stands there is the error. -/

namespace SourceSurvey.CommandLine

variable {α : Type} {flags : List (Text × Flag α)} {group arguments rest : List Text} {setting : α}
  {settings : List α} {groups : List (List Text × α)} {e : ArgumentError}

/-- Whether some arguments, one behind the other, make a setting. -/
inductive Makes (flags : List (Text × Flag α)) : List Text → α → Prop where
  | plain {flag setting} (h : flags.lookup flag = some (.plain setting)) :
      Makes flags [flag] setting
  | valued {flag value read setting} (h : flags.lookup flag = some (.valued read))
      (hr : read value = .ok setting) :
    Makes flags [flag, value] setting

/-- Whether arguments begin with a fault: no flag, a flag without its value, or a value that the
flag refuses. -/
inductive Fails (flags : List (Text × Flag α)) : List Text → ArgumentError → Prop where
  | unknown {word rest} (h : flags.lookup word = none) :
      Fails flags (word :: rest) (.unknownArgument word)
  | missing {flag read} (h : flags.lookup flag = some (.valued read)) :
      Fails flags [flag] (.missingValue flag)
  | refused {flag value read rest e} (h : flags.lookup flag = some (.valued read))
      (hr : read value = .error e) :
    Fails flags (flag :: value :: rest) e

/-- The arguments of some groups, one behind the other. -/
def written (groups : List (List Text × α)) : List Text := groups.flatMap (·.1)

theorem written_cons (group : List Text) (setting : α) (groups : List (List Text × α)) :
    written ((group, setting) :: groups) = group ++ written groups := List.flatMap_cons

/-- A group is read as its setting, whatever stands behind it. -/
theorem Makes.readSettings_append (h : Makes flags group setting) (rest : List Text) :
    readSettings flags (group ++ rest) = (readSettings flags rest).map (setting :: ·) := by
  cases h with
  | plain h =>
    rw [List.singleton_append, readSettings, h]
  | valued h hr =>
    rw [List.cons_append, List.singleton_append, readSettings, h]
    simp only [hr]
    rfl

theorem Fails.readSettings_eq (h : Fails flags arguments e) :
    readSettings flags arguments = .error e := by
  cases h with
  | unknown h => rw [readSettings, h]
  | missing h => rw [readSettings, h]
  | refused h hr =>
    rw [readSettings, h]
    simp only [hr]
    rfl

/-- Groups are read as their settings in order. -/
theorem readSettings_written_append (h : ∀ g ∈ groups, Makes flags g.1 g.2) (rest : List Text) :
    readSettings flags (written groups ++ rest) = (readSettings flags rest).map
      (groups.map (·.2) ++ ·) := by
  induction groups with
  | nil =>
    rw [written, List.flatMap_nil, List.nil_append]
    cases readSettings flags rest <;> rfl
  | cons g groups ih =>
    rw [List.forall_mem_cons] at h
    rw [written_cons, List.append_assoc, h.1.readSettings_append, ih h.2]
    cases readSettings flags rest <;> rfl

theorem readSettings_written (h : ∀ g ∈ groups, Makes flags g.1 g.2) :
    readSettings flags (written groups) = .ok (groups.map (·.2)) := by
  have whole := readSettings_written_append h []
  rw [List.append_nil] at whole
  rw [whole, readSettings]
  exact congrArg Except.ok (List.append_nil _)

/-- Whether arguments are groups up to their end or up to a fault. -/
def Splits (flags : List (Text × Flag α)) (arguments : List Text) : Prop :=
  ∃ groups rest, (∀ g ∈ groups, Makes flags g.1 g.2) ∧ arguments = written groups ++ rest ∧
    (rest = [] ∨ ∃ e, Fails flags rest e)

theorem Fails.splits (h : Fails flags arguments e) : Splits flags arguments :=
  ⟨[], arguments, fun _ hg => absurd hg List.not_mem_nil, rfl, .inr ⟨e, h⟩⟩

theorem Makes.splits_append (h : Makes flags group setting) (hs : Splits flags rest) :
    Splits flags (group ++ rest) := by
  obtain ⟨groups, rest, hg, rfl, stop⟩ := hs
  exact ⟨(group, setting) :: groups, rest,
    List.forall_mem_cons.mpr ⟨h, hg⟩, by rw [written_cons, List.append_assoc], stop⟩

/-- All arguments are: reading goes on behind a group and stops at a fault. -/
theorem splits (flags : List (Text × Flag α)) (arguments : List Text) : Splits flags arguments := by
  induction arguments using readSettings.induct flags with
  | case1 => exact ⟨[], [], fun _ hg => absurd hg List.not_mem_nil, rfl, .inl rfl⟩
  | case2 word rest h => exact (Fails.unknown h).splits
  | case3 flag rest setting h ih => exact (Makes.plain h).splits_append ih
  | case4 flag read h => exact (Fails.missing h).splits
  | case5 flag read h value rest ih =>
    cases hr : read value with
    | ok setting => exact (Makes.valued h hr).splits_append ih
    | error e => exact (Fails.refused h hr).splits

/-- Reading fails exactly with the fault that stands behind groups alone. -/
theorem readSettings_eq_error_iff : readSettings flags arguments = .error e ↔
    ∃ groups rest, (∀ g ∈ groups, Makes flags g.1 g.2) ∧ arguments = written groups ++ rest ∧
      Fails flags rest e := by
  constructor
  · intro h
    obtain ⟨groups, rest, hg, rfl, rfl | ⟨e', fails⟩⟩ := splits flags arguments
    · rw [List.append_nil, readSettings_written hg] at h
      exact absurd h (by simp)
    · rw [readSettings_written_append hg, fails.readSettings_eq] at h
      obtain rfl : e' = e := Except.error.inj h
      exact ⟨groups, rest, hg, rfl, fails⟩
  · rintro ⟨groups, rest, hg, rfl, fails⟩
    rw [readSettings_written_append hg, fails.readSettings_eq]
    rfl

end SourceSurvey.CommandLine
