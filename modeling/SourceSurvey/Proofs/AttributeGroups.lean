import SourceSurvey.Proofs.Brackets
import SourceSurvey.Proofs.CharacterOffsets

/-! The groups in square brackets in front of a text. A group ends with the bracket that closes the
one it begins with: it is balanced, and no shorter start of it is. The groups are taken one after
the other, with the blanks between them, until what is left begins with another character or with a
bracket that is never closed. Of the text nothing is lost but the blanks in front of it, and it has
one grouping only.

The scan counts the brackets that are open and forgets which ones; here they are told by the closing
brackets that are owed, so that a bracket and the one that closes it are those with a balanced text
between them. -/

namespace SourceSurvey.Source

open Text CSharp

variable {g t u rest : Text} {c : Char} {depth : Nat} {groups : List Text}

/-! ### Groups -/

def squareBrackets : List (Char × Char) := [('[', ']')]

/-- While the bracket further out is not closed, one closing bracket is owed for each that is
counted. -/
theorem owe_square (hc : ¬(c = ']' ∧ depth = 0)) :
    owe squareBrackets (List.replicate depth ']') c =
      some (List.replicate (squareDepth depth c) ']') := by
  by_cases opens : c = '['
  · subst opens
    rfl
  · have other : squareBrackets.lookup c = none := by
      rw [List.lookup_eq_none_iff]
      simpa [squareBrackets] using opens
    rw [owe, other, squareDepth, if_neg opens]
    by_cases closes : c = ']'
    · subst closes
      cases depth with
      | zero => exact absurd ⟨rfl, rfl⟩ hc
      | succ depth => rfl
    · rw [if_neg closes]
      exact if_neg (by simpa [squareBrackets] using closes)

/-- A text from a square bracket to the one that closes it. -/
structure IsBalancedGroup (g : Text) : Prop where
  opens : g.head? = some '['
  closes : g.getLast? = some ']'
  balanced : Balanced squareBrackets g
  shortest : ∀ p, p <+: g → p ≠ [] → p ≠ g → ¬Balanced squareBrackets p

/-- A balanced text makes the brackets around it a pair: what stands in front of the closing one
still owes it. -/
theorem isBalancedGroup_of_balanced (hu : Balanced squareBrackets u) :
    IsBalancedGroup ('[' :: u ++ [']']) where
  opens := rfl
  closes := List.getLast?_concat
  balanced := by
    have inner : u.foldlM (owe squareBrackets) [']'] = some [']'] := foldlM_owe_append hu [']']
    show (u ++ [']']).foldlM (owe squareBrackets) [']'] = some []
    rw [List.foldlM_append, inner]
    rfl
  shortest p hp some' short balanced := by
    rcases List.prefix_concat_iff.mp hp with whole | hp
    · exact short whole
    · rcases List.prefix_cons_iff.mp hp with none | ⟨q, rfl, hq⟩
      · exact some' none
      · obtain ⟨owed, start⟩ := hu.exists_owed hq
        have unpaid : q.foldlM (owe squareBrackets) [']'] = some (owed ++ [']']) :=
          foldlM_owe_append start [']']
        have paid : q.foldlM (owe squareBrackets) [']'] = some [] := balanced
        rw [unpaid] at paid
        exact absurd (Option.some.inj paid) (by simp)

/-- A group that is told by its balance is one for the scan, which counts. -/
theorem IsBalancedGroup.isGroup (h : IsBalancedGroup g) : IsGroup g where
  opens := h.opens
  closed := length_of_foldlM_owe (fun _ _ => rfl) h.balanced
  first n hn pos := by
    have start : g.take n <+: g := List.take_prefix n g
    have length : (g.take n).length = n := List.length_take_of_le hn.le
    obtain ⟨owed, front⟩ := h.balanced.exists_owed start
    have depth : (g.take n).foldl squareDepth 0 = owed.length :=
      length_of_foldlM_owe (fun _ _ => rfl) front
    have unpaid : owed ≠ [] := by
      rintro rfl
      refine h.shortest (g.take n) start (fun none => ?_) (fun whole => ?_) front
      · rw [none] at length
        exact pos.ne length
      · rw [whole] at length
        exact hn.ne' length
    rw [depth]
    exact List.length_pos_iff.mpr unpaid

/-! ### Texts that begin with no group -/

/-- The square bracket that a text begins with is never closed: no closing bracket follows it with a
balanced text between the two. -/
def IsUnclosed (t : Text) : Prop :=
  t.head? = some '[' ∧ ∀ u rest, t = '[' :: u ++ ']' :: rest → ¬Balanced squareBrackets u

/-- A text that begins with no group. -/
def NoGroup (t : Text) : Prop := t.head? ≠ some '[' ∨ IsUnclosed t

/-- Where no text in front of a closing bracket pays what is owed within a group, the group is read
to the end of the text and given back. -/
theorem takeGroupsFrom_unclosed
    (h : ∀ u rest, t = u ++ ']' :: rest →
    u.foldlM (owe squareBrackets) (List.replicate depth ']') ≠ some []) (group : Text) :
    takeGroupsFrom (depth + 1) group t = ([], group ++ t) := by
  induction t generalizing depth group with
  | nil => rw [takeGroupsFrom, List.append_nil]
  | cons c t ih =>
    have hc : ¬(c = ']' ∧ depth = 0) := by
      rintro ⟨rfl, rfl⟩
      exact h [] t rfl rfl
    have later : ∀ u rest, t = u ++ ']' :: rest →
        u.foldlM (owe squareBrackets) (List.replicate (squareDepth depth c) ']') ≠ some [] :=
          fun u rest hu => by
      have whole := h (c :: u) rest (congrArg (c :: ·) hu)
      rw [List.foldlM_cons, owe_square hc] at whole
      exact whole
    rw [takeGroupsFrom_open hc, squareDepth_succ hc, ih later, List.append_assoc,
      List.singleton_append]

theorem NoGroup.takeGroups_eq (h : NoGroup t)
    (front : trimStart t = t) : takeGroups t = ([], t) := by
  rcases h with other | ⟨opens, unclosed⟩
  · rw [takeGroups_eq_trimStart (front.symm ▸ other), front]
  · obtain ⟨t, rfl⟩ := List.head?_eq_some_iff.mp opens
    have never : ∀ u rest, t = u ++ ']' :: rest →
        u.foldlM (owe squareBrackets) (List.replicate 0 ']') ≠ some [] :=
      fun u rest hu => unclosed u rest (congrArg ('[' :: ·) hu)
    exact takeGroupsFrom_unclosed never ['[']

theorem exists_group_or_noGroup (t : Text) :
    (∃ g rest, t = g ++ rest ∧ IsBalancedGroup g) ∨ NoGroup t := by
  by_cases opens : t.head? = some '['
  · by_cases closed : ∃ u rest, t = '[' :: u ++ ']' :: rest ∧ Balanced squareBrackets u
    · obtain ⟨u, rest, split, hu⟩ := closed
      exact .inl ⟨'[' :: u ++ [']'], rest, by simpa using split, isBalancedGroup_of_balanced hu⟩
    · exact .inr (.inr ⟨opens, fun u rest split hu => closed ⟨u, rest, split, hu⟩⟩)
  · exact .inr (.inl opens)

/-! ### Groupings -/

/-- A text without the blanks in front of it is groups, each with blanks behind it, if any, and a
rest that begins neither with a blank nor with a further group. -/
structure IsGrouping (t : Text) (groups : List Text) (rest : Text) : Prop where
  text : ∃ run : List (Text × Text), run.map (·.1) = groups ∧ (∀ p ∈ run, Blank p.2) ∧
    trimStart t = spaced run ++ rest
  groups : ∀ g ∈ groups, IsBalancedGroup g
  front : trimStart rest = rest
  ends : NoGroup rest

namespace IsGrouping

theorem nil (h : NoGroup (trimStart t)) : IsGrouping t [] (trimStart t) where
  text := ⟨[], rfl, fun _ hp => absurd hp List.not_mem_nil, rfl⟩
  groups _ hg := absurd hg List.not_mem_nil
  front := List.dropWhile_idempotent isBlank t
  ends := h

theorem cons (h : IsGrouping u groups rest) (hg : IsBalancedGroup g)
    (split : trimStart t = g ++ u) :
    IsGrouping t (g :: groups) rest where
  text := by
    obtain ⟨run, rfl, gaps, text⟩ := h.text
    obtain ⟨gap, parts, blank⟩ := exists_trimStart u
    refine ⟨(g, gap) :: run, rfl, List.forall_mem_cons.mpr ⟨blank, gaps⟩, ?_⟩
    rw [split, spaced_cons, List.append_assoc, List.append_assoc, ← text, ← parts]
  groups := List.forall_mem_cons.mpr ⟨hg, h.groups⟩
  front := h.front
  ends := h.ends

theorem takeGroups_eq (h : IsGrouping t groups rest) : takeGroups t = (groups, rest) := by
  obtain ⟨run, rfl, gaps, text⟩ := h.text
  have parts : ∀ p ∈ run, IsGroup p.1 ∧ Blank p.2 :=
    fun p hp => ⟨(h.groups p.1 (List.mem_map_of_mem hp)).isGroup, gaps p hp⟩
  rw [← takeGroups_trimStart, text, takeGroups_spaced parts, h.ends.takeGroups_eq h.front,
    List.append_nil]

end IsGrouping

theorem isGrouping_takeGroups (t : Text) : IsGrouping t (takeGroups t).1 (takeGroups t).2 := by
  induction hn : t.length using Nat.strongRecOn generalizing t with
  | ind n ih =>
    subst hn
    rcases exists_group_or_noGroup (trimStart t) with ⟨g, rest, split, hg⟩ | none
    · have shorter : rest.length < t.length := by
        have whole := congrArg List.length split
        have some' := List.length_pos_iff.mpr (List.ne_nil_of_mem (List.mem_of_head? hg.opens))
        have bound := length_trimStart_le t
        rw [List.length_append] at whole
        omega
      rw [← takeGroups_trimStart, split, hg.isGroup.takeGroups_append]
      exact (ih rest.length shorter rest rfl).cons hg split
    · have grouping := IsGrouping.nil none
      rw [grouping.takeGroups_eq]
      exact grouping

/-- The groups in front of a text are taken off without failing. With the blanks behind them and the
rest they are the text, less the blanks in front of it; each begins with a bracket and ends with the
one that closes it, and the rest begins neither with a blank nor with a bracket that is closed. No
other groups and no other rest are so. -/
theorem takeGroups_exact (t : Text) :
    takeGroups? t = some (takeGroups t) ∧ IsGrouping t (takeGroups t).1 (takeGroups t).2 ∧
      ∀ groups rest, IsGrouping t groups rest → takeGroups t = (groups, rest) :=
  ⟨takeGroups?_eq t, isGrouping_takeGroups t, fun _ _ => IsGrouping.takeGroups_eq⟩

example :
    takeGroups " [A(x[0])]\t[B] [C [D] int".toList = (["[A(x[0])]".toList, "[B]".toList],
      "[C [D] int".toList) := by
  decide

end SourceSurvey.Source
