import SourceSurvey.Proofs.Spelling
import Mathlib.Data.List.Induction

/-! Normal forms of paths. What has been reduced is a stack: the root or some parent components at
the bottom, and names above them. Each component keeps it one, and a stack that is written as a path
and read again is the same stack. So the normal form is reached in one step, and a path leads to the
same place from a directory and from its normal form. -/

namespace SourceSurvey.Path

open Text

/-! ### Stacks -/

/-- Reduced components, the last one first: names above the root, or above the parents that a
relative path begins with. -/
inductive IsStack : Bool → List Component → Prop where
  | root : IsStack true [.root]
  | parents (n : Nat) : IsStack false (List.replicate n .parent)
  | name {rooted taken} (n : Text) (segment : isSegment n = true) (h : IsStack rooted taken) :
    IsStack rooted (.name n :: taken)

variable {dir path : Text} {rooted : Bool} {taken : List Component}

/-- A component behind the start of a path. -/
theorem eq_parent_or_name {c : Component} (h : c ∈ steps path) :
    c = .parent ∨ ∃ n, isSegment n = true ∧ c = .name n := by
  obtain ⟨segment, inside, told⟩ := List.mem_filterMap.mp h
  obtain ⟨-, -, -, whole, -, -⟩ := mem_splitAll_iff.mp inside
  rw [segmentComponent?] at told
  split at told
  · exact absurd told (by simp)
  · next silent =>
    split at told
    · exact .inl (Option.some.inj told).symm
    · next up =>
      have slash : '/' ∉ segment := fun hs => absurd (whole '/' hs) (by decide)
      exact .inr ⟨segment, isSegment_iff.mpr ⟨eq_false_of_ne_true silent, up, slash⟩,
        (Option.some.inj told).symm⟩

theorem reduce_of_name (taken : List Component) (n : Text) :
    reduce taken (.name n) = .name n :: taken := by
  rcases taken with _ | ⟨_ | _ | _ | _, _⟩ <;> rfl

theorem reduce_of_parents (n : Nat) :
    reduce (List.replicate n .parent) .parent = List.replicate (n + 1) .parent := by
  cases n <;> rfl

/-- A parent component takes a name away, is dropped at the root and is kept behind other parents.
-/
theorem IsStack.reduce_parent (h : IsStack rooted taken) :
    IsStack rooted (reduce taken .parent) := by
  cases h with
  | root => exact .root
  | parents n => exact reduce_of_parents n ▸ .parents (n + 1)
  | name n segment h => exact h

/-- What has been reduced stays a stack along a path. -/
theorem IsStack.foldl_reduce {components : List Component} (h : IsStack rooted taken)
    (hc : ∀ c ∈ components, c = .parent ∨ ∃ n, isSegment n = true ∧ c = .name n) :
    IsStack rooted (components.foldl reduce taken) := by
  induction components generalizing taken with
  | nil => exact h
  | cons c components ih =>
    rw [List.forall_mem_cons] at hc
    refine ih ?_ hc.2
    rcases hc.1 with rfl | ⟨n, segment, rfl⟩
    · exact h.reduce_parent
    · exact reduce_of_name taken n ▸ h.name n segment

theorem isStack_start (path : Text) : IsStack (isAbsolute path) (start path) := by
  rw [start]
  cases isAbsolute path with
  | true => exact .root
  | false => exact .parents 0

/-- The normal form of a path is written from a stack, on the root exactly if the path is absolute.
-/
theorem isStack_normalComponents (path : Text) :
    IsStack (isAbsolute path) (normalComponents path).reverse := by
  rw [normalComponents_eq, List.reverse_reverse]
  exact (isStack_start path).foldl_reduce fun c => eq_parent_or_name

/-- Reducing a stack from its bottom leaves it as it is. -/
theorem IsStack.foldl_reverse (h : IsStack rooted taken) :
    taken.reverse.foldl reduce [] = taken := by
  induction h with
  | root => rfl
  | parents n =>
    induction n with
    | zero => rfl
    | succ n ih =>
      rw [List.reverse_replicate] at ih ⊢
      rw [List.replicate_succ', List.foldl_append, ih, ← List.replicate_succ']
      exact reduce_of_parents n
  | @name _ taken n _ _ ih =>
    rw [List.reverse_cons, List.foldl_append, ih]
    exact reduce_of_name taken n

/-! ### Stacks as paths -/

theorem segments_dots (n : Nat) :
    segments (joinSegments (List.replicate (n + 1) ['.', '.'])) = List.replicate
      (n + 1) ['.', '.'] := by
  rw [segments, splitAll_eq_splitOnP]
  refine List.splitOn_intercalate '/' (fun s hs => ?_) (by simp)
  rw [List.eq_of_mem_replicate hs]
  decide

theorem exists_dots_eq (n : Nat) :
    ∃ rest, joinSegments (List.replicate (n + 1) ['.', '.']) = '.' :: '.' :: rest := by
  rw [List.replicate_succ, joinSegments_cons]
  exact ⟨_, rfl⟩

theorem ofComponents_parents (n : Nat) :
    ofComponents (List.replicate n .parent) = joinSegments (List.replicate n ['.', '.']) := by
  rw [ofComponents, List.map_replicate]
  · rfl
  · cases n <;> simp [List.replicate_succ]

theorem components_parents (n : Nat) :
    components (ofComponents (List.replicate n .parent)) = List.replicate n .parent := by
  rw [ofComponents_parents]
  cases n with
  | zero => rfl
  | succ n =>
    obtain ⟨rest, front⟩ := exists_dots_eq n
    have cut := segments_dots n
    rw [front] at cut ⊢
    rw [components, split_of_plain (by decide) (by simp), cut, List.filterMap_replicate]
    rfl

theorem isAbsolute_parents (n : Nat) :
    isAbsolute (ofComponents (List.replicate n .parent)) = false := by
  rw [ofComponents_parents]
  cases n with
  | zero => rfl
  | succ n =>
    obtain ⟨rest, front⟩ := exists_dots_eq n
    rw [front]
    rfl

theorem ofComponents_of_ne {components : List Component} (h : components ≠ [.root]) :
    ofComponents components = joinSegments (components.map Component.segment) := by
  rw [ofComponents]
  exact h

theorem joinSegments_concat {front : List Text} (hf : front ≠ []) (s : Text) :
    joinSegments (front ++ [s]) = joinSegments front ++ '/' :: s := by
  obtain ⟨first, rest, rfl⟩ := List.exists_cons_of_ne_nil hf
  rw [List.cons_append, joinSegments_cons, joinSegments_cons, slashed, List.flatMap_append, slashed,
    List.append_assoc, List.flatMap_singleton]

theorem getLast?_joinSegments (front : List Text) {s : Text} (hs : s ≠ []) :
    (joinSegments (front ++ [s])).getLast? = s.getLast? := by
  by_cases hf : front = []
  · subst hf
    rw [List.nil_append, joinSegments, List.intercalate_singleton]
  · rw [joinSegments_concat hf, ← List.singleton_append, ← List.append_assoc,
      List.getLast?_append_of_ne_nil _ hs]

/-- On a stack that is neither empty nor the root alone stands a segment. -/
theorem IsStack.exists_last (h : IsStack rooted taken) (hn : taken ≠ []) (hr : taken ≠ [.root]) :
    ∃ c below, taken = c :: below ∧ c.segment ≠ [] ∧ '/' ∉ c.segment := by
  cases h with
  | root => exact absurd rfl hr
  | parents n =>
    cases n with
    | zero => exact absurd rfl hn
    | succ n => exact ⟨.parent, _, List.replicate_succ, by decide, by decide⟩
  | name n segment h => exact ⟨.name n, _, rfl, ne_nil_of_isSegment segment, slash_notMem segment⟩

/-- A name on a stack stands behind the path of the stack. -/
theorem IsStack.ofComponents_name {n : Text} (h : IsStack rooted taken)
    (segment : isSegment n = true) :
    ofComponents (taken.reverse ++ [.name n]) = join (ofComponents taken.reverse) n := by
  have longer :
      ofComponents (taken.reverse ++ [.name n]) = joinSegments
        (taken.reverse.map Component.segment ++ [n]) := by
    rw [ofComponents_of_ne, List.map_append]
    · rfl
    · exact fun root => absurd (congrArg List.getLast? root) (by simp)
  by_cases hn : taken = []
  · subst hn
    rw [longer]
    exact (List.intercalate_singleton ..).trans (join_nil segment).symm
  by_cases hr : taken = [.root]
  · subst hr
    have root : ofComponents [Component.root].reverse = ['/'] := rfl
    rw [longer, root, join_of_relative (isAbsolute_of_isSegment segment), if_pos (.inr rfl)]
    exact joinSegments_concat (List.cons_ne_nil [] []) n
  obtain ⟨c, below, rfl, told, noSlash⟩ := h.exists_last hn hr
  have plain : (c :: below).reverse ≠ [.root] :=
    fun root => hr (by simpa using congrArg List.reverse root)
  have front :
      ofComponents (c :: below).reverse = joinSegments
        (below.reverse.map Component.segment ++ [c.segment]) := by
    rw [ofComponents_of_ne plain, List.reverse_cons, List.map_append]
    rfl
  have last : (ofComponents (c :: below).reverse).getLast? = c.segment.getLast? := by
    rw [front, getLast?_joinSegments _ told]
  have behind : (ofComponents (c :: below).reverse).getLast? ≠ some '/' := by
    rw [last]
    exact fun h => noSlash (List.mem_of_getLast? h)
  have written : ofComponents (c :: below).reverse ≠ [] := by
    intro empty
    rw [empty] at last
    exact told (List.getLast?_eq_none_iff.mp last.symm)
  rw [longer, joinSegments_concat (by simp), ← ofComponents_of_ne plain,
    join_of_relative (isAbsolute_of_isSegment segment),
    if_neg (not_or.mpr ⟨written, behind⟩), List.append_assoc, List.singleton_append]

/-- A stack is found again in the components of its path. -/
theorem IsStack.components_eq (h : IsStack rooted taken) :
    components (ofComponents taken.reverse) = taken.reverse := by
  induction h with
  | root => rfl
  | parents n => rw [List.reverse_replicate, components_parents]
  | name n segment h ih =>
      rw [List.reverse_cons, h.ofComponents_name segment, components_join segment, ih]

theorem IsStack.isAbsolute_eq (h : IsStack rooted taken) :
    isAbsolute (ofComponents taken.reverse) = rooted := by
  induction h with
  | root => rfl
  | parents n => rw [List.reverse_replicate, isAbsolute_parents]
  | name n segment h ih =>
    rw [List.reverse_cons, h.ofComponents_name segment,
      isAbsolute_join (isAbsolute_of_isSegment segment), ih]

/-! ### Normal forms -/

/-- A path whose components are a stack is written anew from the same components. -/
theorem IsStack.normalComponents_eq (h : IsStack rooted taken)
    (hc : components path = taken.reverse) :
    normalComponents path = taken.reverse := by
  rw [normalComponents, hc, h.foldl_reverse]

theorem components_normalize (path : Text) :
    components (normalize path) = normalComponents path := by
  have written := (isStack_normalComponents path).components_eq
  rwa [List.reverse_reverse] at written

theorem normalComponents_normalize (path : Text) :
    normalComponents (normalize path) = normalComponents path := by
  have stack := isStack_normalComponents path
  rw [stack.normalComponents_eq (by rw [components_normalize, List.reverse_reverse]),
    List.reverse_reverse]

theorem isAbsolute_normalize (path : Text) : isAbsolute (normalize path) = isAbsolute path := by
  have written := (isStack_normalComponents path).isAbsolute_eq
  rwa [List.reverse_reverse] at written

/-- A path goes on from the normal form of a directory as from the directory. -/
theorem normalize_join (dir path : Text) :
    normalize (join (normalize dir) path) = normalize (join dir path) := by
  cases ha : isAbsolute path with
  | true => rw [join, if_pos ha, join, if_pos ha]
  | false =>
      rw [normalize, normalComponents_join ha,
        normalComponents_normalize, ← normalComponents_join ha, normalize]

/-- What a normal form is told by: no dot stands in it, and parents only lead a relative path. -/
structure IsNormal (path : Text) : Prop where
  noDot : .current ∉ components path
  parents : ∀ front back, components path = front ++ .parent :: back →
    isAbsolute path = false ∧ ∀ c ∈ front, c = .parent

theorem IsStack.noDot (h : IsStack rooted taken) : .current ∉ taken := by
  induction h with
  | root => decide
  | parents n => exact fun dot => absurd (List.eq_of_mem_replicate dot) (by simp)
  | name n segment h ih => simpa using ih

/-- In a stack read from its bottom nothing but parents stands in front of a parent. -/
theorem IsStack.parents_lead {front back : List Component} (h : IsStack rooted taken)
    (hc : taken.reverse = front ++ .parent :: back) : rooted = false ∧
    ∀ c ∈ front, c = .parent := by
  induction h generalizing back with
  | root =>
    have inside : .parent ∈ [Component.root].reverse :=
      hc ▸ List.mem_append_right front List.mem_cons_self
    exact absurd inside (by decide)
  | parents n =>
    refine ⟨rfl, fun c hf => List.eq_of_mem_replicate (n := n) ?_⟩
    rw [← List.reverse_replicate, hc]
    exact List.mem_append_left _ hf
  | @name _ taken n _ _ ih =>
    rw [List.reverse_cons] at hc
    rcases List.eq_nil_or_concat back with rfl | ⟨back, last, rfl⟩
    · exact absurd (List.append_inj_right' hc rfl) (by simp)
    · rw [List.concat_eq_append, ← List.cons_append, ← List.append_assoc] at hc
      exact ih (List.append_inj_left' hc rfl)

theorem isNormal_normalize (path : Text) : IsNormal (normalize path) := by
  have stack := isStack_normalComponents path
  have written : components (normalize path) = (normalComponents path).reverse.reverse := by
    rw [components_normalize, List.reverse_reverse]
  constructor
  · rw [written, List.mem_reverse]
    exact stack.noDot
  · intro front back hc
    rw [isAbsolute_normalize]
    exact stack.parents_lead (written.symm.trans hc)

theorem components_eq_of_noDot (h : .current ∉ components path) :
    components path = start path ++ steps path := by
  revert h
  rw [components, steps, start, segments]
  fun_cases split path with
  | case1 rest => exact fun _ => rfl
  | case2 => exact fun h => absurd List.mem_cons_self h
  | case3 rest => exact fun h => absurd List.mem_cons_self h
  | case4 path notRoot _ _ =>
    intro _
    have relative : isAbsolute path = false := by
      cases path with
      | nil => rfl
      | cons c rest => exact decide_eq_false fun h => notRoot rest (by rw [Option.some.inj h])
    rw [relative]
    rfl

/-- Components in which parents only lead are a stack, read from its bottom. -/
theorem isStack_of_parents_lead {lead components : List Component}
    (hl : IsStack rooted lead.reverse)
    (hc : ∀ c ∈ components, c = .parent ∨ ∃ n, isSegment n = true ∧ c = .name n)
    (hp : ∀ front back, lead ++ components = front ++ .parent :: back → rooted = false ∧
    ∀ c ∈ front, c = .parent) :
    IsStack rooted (lead ++ components).reverse := by
  induction components using List.reverseRecOn with
  | nil => rwa [List.append_nil]
  | append_singleton components c ih =>
    rw [List.forall_mem_append] at hc
    rw [← List.append_assoc] at hp ⊢
    have below := ih hc.1 fun front back split =>
      hp front (back ++ [c]) (by rw [split, List.append_assoc, List.cons_append])
    rw [List.reverse_concat]
    rcases hc.2 c List.mem_cons_self with rfl | ⟨n, segment, rfl⟩
    · obtain ⟨rfl, parents⟩ := hp (lead ++ components) [] rfl
      rw [List.eq_replicate_of_mem parents, List.reverse_replicate, ← List.replicate_succ]
      exact .parents _
    · exact below.name n segment

/-- A path in normal form is not changed but for slashes. -/
theorem IsNormal.components_normalize (h : IsNormal path) :
    components (normalize path) = components path := by
  have written := components_eq_of_noDot h.noDot
  have bottom : IsStack (isAbsolute path) (start path).reverse := by
    have same : (start path).reverse = start path := by rw [start]; split <;> rfl
    rw [same]
    exact isStack_start path
  have stack := isStack_of_parents_lead bottom (fun c => eq_parent_or_name) (written ▸ h.parents)
  rw [Path.components_normalize, stack.normalComponents_eq (by rw [List.reverse_reverse, written]),
    List.reverse_reverse, written]

theorem display_display (path : Text) : display (display path) = display path := by
  refine display_of_notMem fun h => ?_
  obtain ⟨c, -, hc⟩ := List.mem_map.mp h
  split at hc
  · exact absurd hc (by decide)
  · next other => exact other hc

/-- Normal forms are canonical: a normal form is normal and its own normal form, it stands for the
path wherever a path goes on from it, and an include leads from the normal form of a directory, and
written with slashes, where it leads from the directory, or from anywhere if it is absolute. -/
theorem normalize_canonical (path dir included : Text) :
    normalize (normalize path) = normalize path ∧
      IsNormal (normalize path) ∧
      isAbsolute (normalize path) = isAbsolute path ∧
      (IsNormal path → components (normalize path) = components path) ∧
      normalize (join dir path) = normalize (join (normalize dir) path) ∧
      resolveInclude dir included = resolveInclude (normalize dir) included ∧
      resolveInclude dir included = resolveInclude dir (display included) ∧
      (isAbsolute (display included) = true →
        ∀ other, resolveInclude dir included = resolveInclude other included) := by
  refine ⟨?_, isNormal_normalize path, isAbsolute_normalize path, IsNormal.components_normalize,
    (normalize_join dir path).symm, (normalize_join dir _).symm, ?_, fun absolute other => ?_⟩
  · rw [normalize, normalComponents_normalize, normalize]
  · rw [resolveInclude, resolveInclude, display_display]
  · rw [resolveInclude, resolveInclude, join, if_pos absolute, join, if_pos absolute]

end SourceSurvey.Path
