import SourceSurvey.Path.Normal
import SourceSurvey.Proofs.Segments
import Mathlib.Logic.Relation

/-! Spellings of an include. What an include leads to depends on its components alone, read on from
the directory or, behind a leading slash, from the root. So slashes of either kind, repeated and
trailing slashes, dots, a name with a parent component behind it, and the directory written in front
make no difference. -/

namespace SourceSurvey.Path

open Text

variable {dir path name x y : Text}

/-! ### Normal forms from a start -/

/-- The components of a path behind its start. -/
def steps (path : Text) : List Component := (segments path).filterMap segmentComponent?

/-- The start of a path: the root, or wherever it is read from. -/
def start (path : Text) : List Component := if isAbsolute path then [.root] else []

theorem steps_append_slash (a b : Text) : steps (a ++ '/' :: b) = steps a ++ steps b := by
  rw [steps, segments_append_slash, List.filterMap_append]
  rfl

/-- A leading dot, which is a component of its own, leaves no trace in the normal form. -/
theorem normalComponents_eq (path : Text) :
    normalComponents path = ((steps path).foldl reduce (start path)).reverse := by
  rw [normalComponents, components, steps, start, segments]
  congr 1
  fun_cases split path with
  | case1 rest => rfl
  | case2 => rfl
  | case3 rest => rfl
  | case4 path notRoot _ _ =>
    have relative : isAbsolute path = false := by
      cases path with
      | nil => rfl
      | cons c rest => exact decide_eq_false fun h => notRoot rest (by rw [Option.some.inj h])
    rw [relative]
    rfl

theorem steps_join (relative : isAbsolute path = false) :
    steps (join dir path) = steps dir ++ steps path := by
  rw [join_of_relative relative]
  by_cases hd : dir = []
  · subst hd
    rfl
  · by_cases hl : dir.getLast? = some '/'
    · obtain ⟨front, rfl⟩ := List.getLast?_eq_some_iff.mp hl
      rw [if_pos (.inr hl), List.append_assoc, List.singleton_append, steps_append_slash,
        steps_append_slash]
      rw [show steps [] = [] from rfl, List.append_nil]
    · rw [if_neg (by simp [hd, hl]), List.append_assoc, List.singleton_append, steps_append_slash]

theorem isAbsolute_join (relative : isAbsolute path = false) :
    isAbsolute (join dir path) = isAbsolute dir := by
  rw [join_of_relative relative]
  by_cases hd : dir = []
  · subst hd
    exact relative
  · split
    · exact isAbsolute_append hd path
    · rw [List.append_assoc, isAbsolute_append hd]

/-- A relative path goes on where its directory ends. -/
theorem normalComponents_join (relative : isAbsolute path = false) :
    normalComponents
      (join dir path) = ((steps path).foldl reduce (normalComponents dir).reverse).reverse := by
  rw [normalComponents_eq, normalComponents_eq, List.reverse_reverse, steps_join relative,
    List.foldl_append, start, start, isAbsolute_join relative]

/-- An include leads on from the root or from the directory along its components. -/
theorem resolveInclude_eq (dir included : Text) : resolveInclude dir included =
    ofComponents ((steps (display included)).foldl reduce
      (if isAbsolute (display included) then [.root] else
        (normalComponents dir).reverse)).reverse := by
  rw [resolveInclude, normalize]
  cases ha : isAbsolute (display included) with
  | true => rw [join, if_pos ha, normalComponents_eq, start, ha, if_pos rfl, if_pos rfl]
  | false => rw [normalComponents_join ha, if_neg (by decide)]

theorem resolveInclude_congr (ha : isAbsolute (display x) = isAbsolute (display y))
    (hs : ∀ taken,
    (steps (display x)).foldl reduce taken = (steps (display y)).foldl reduce taken) :
    resolveInclude dir x = resolveInclude dir y := by
  rw [resolveInclude_eq, resolveInclude_eq, ha, hs]

/-! ### Spellings -/

/-- What can stand between two slashes and lead nowhere. -/
inductive Detour : Text → Prop where
  | nothing : Detour []
  | dot : Detour ['.']
  /-- Into a directory and back. -/
  | back (name : Text) (segment : isSegment name = true) (plain : '\\' ∉ name) :
      Detour (name ++ ['/', '.', '.'])

/-- An include and a plainer spelling of it, both read in a directory. -/
inductive Plainer (dir : Text) : Text → Text → Prop where
  /-- A slash in place of a backslash. -/
  | slash (a b : Text) : Plainer dir (a ++ '\\' :: b) (a ++ '/' :: b)
  | detour (a u b : Text) (h : Detour u) : Plainer dir (a ++ '/' :: (u ++ '/' :: b)) (a ++ '/' :: b)
  | trailing (a : Text) (h : a ≠ []) : Plainer dir (a ++ ['/']) a
  | leading (a : Text) (relative : isAbsolute (display a) = false) : Plainer dir ('.' :: '/' :: a) a
  /-- A path read in the directory in place of one that begins with it. -/
  | inside (a : Text) (absolute : isAbsolute dir = true) (plain : '\\' ∉ dir)
      (relative : isAbsolute (display a) = false) : Plainer dir (join dir a) a

/-- Different spellings of one include. -/
def Respelled (dir : Text) : Text → Text → Prop := Relation.EqvGen (Plainer dir)

theorem display_append (a b : Text) : display (a ++ b) = display a ++ display b := List.map_append

theorem display_slash (a : Text) : display ('/' :: a) = '/' :: display a := rfl

theorem display_of_notMem (h : '\\' ∉ path) : display path = path := by
  rw [display, replaceChar]
  refine (List.map_congr_left fun c hc => if_neg ?_).trans (List.map_id' path)
  rintro rfl
  exact h hc

theorem isAbsolute_of_display (h : isAbsolute (display path) = false) :
    isAbsolute path = false := by
  cases path with
  | nil => rfl
  | cons c rest =>
    refine decide_eq_false fun root => of_decide_eq_false h ?_
    rw [Option.some.inj root]
    rfl

theorem display_join (plain : '\\' ∉ dir) (relative : isAbsolute (display path) = false) :
    display (join dir path) = join dir (display path) := by
  rw [join_of_relative relative, join_of_relative (isAbsolute_of_display relative), display_append]
  split
  · rw [display_of_notMem plain]
  · rw [display_append, display_of_notMem plain]
    rfl

/-- A name and a parent component behind it take each other away. -/
theorem reduce_back (taken : List Component) (name : Text) :
    reduce (reduce taken (.name name)) .parent = taken := by
  rcases taken with _ | ⟨_ | _ | _ | _, _⟩ <;> rfl

theorem Detour.foldl_reduce {u : Text} (h : Detour u) (taken : List Component) :
    (steps (display u)).foldl reduce taken = taken := by
  cases h with
  | nothing => rfl
  | dot => rfl
  | back name segment plain =>
    have named : steps name = [.name name] := by
      rw [steps, segments_of_isSegment segment,
        List.filterMap_cons_some (segmentComponent?_of_isSegment segment)]
      rfl
    rw [display_append, display_of_notMem plain]
    show (steps (name ++ '/' :: ['.', '.'])).foldl reduce taken = taken
    rw [steps_append_slash, named]
    exact reduce_back taken name

theorem isAbsolute_append_slash (a b c : Text) :
    isAbsolute (a ++ '/' :: b) = isAbsolute (a ++ '/' :: c) := by
  cases a <;> rfl

/-- A plainer spelling leads to the same place. -/
theorem Plainer.resolveInclude_eq (h : Plainer dir x y) :
    resolveInclude dir x = resolveInclude dir y := by
  cases h with
  | slash a b =>
    have same : display (a ++ '\\' :: b) = display (a ++ '/' :: b) := by
      rw [display_append, display_append]
      rfl
    rw [resolveInclude, resolveInclude, same]
  | detour a u b h =>
    refine resolveInclude_congr ?_ fun taken => ?_
    · rw [display_append, display_append, display_slash, display_slash]
      exact isAbsolute_append_slash _ _ _
    · rw [display_append, display_append, display_slash, display_slash,
        display_append, display_slash,
        steps_append_slash, steps_append_slash, steps_append_slash, List.foldl_append,
          List.foldl_append,
        List.foldl_append, h.foldl_reduce]
  | trailing _ h =>
    refine resolveInclude_congr ?_ fun taken => ?_
    · rw [display_append, isAbsolute_append (by simpa [display, replaceChar] using h)]
    · rw [display_append, show display ['/'] = '/' :: [] from rfl, steps_append_slash,
        List.foldl_append]
      rfl
  | leading _ relative =>
    refine resolveInclude_congr ?_ fun taken => ?_
    · rw [relative]
      rfl
    · exact congrArg (List.foldl reduce taken) (steps_append_slash ['.'] (display y))
  | inside _ absolute plain relative =>
    rw [resolveInclude, resolveInclude, display_join plain relative]
    exact congrArg normalize (if_pos ((isAbsolute_join relative).trans absolute))

theorem Respelled.resolveInclude_eq (h : Respelled dir x y) :
    resolveInclude dir x = resolveInclude dir y := by
  induction h with
  | rel x y plainer => exact plainer.resolveInclude_eq
  | refl x => rfl
  | symm x y _ ih => exact ih.symm
  | trans x y z _ _ first second => exact first.trans second

end SourceSurvey.Path
