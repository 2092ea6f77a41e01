import SourceSurvey.Xml.Document
import Mathlib.Data.List.Forall2
import Mathlib.Data.List.Flatten
import Mathlib.Order.Basic

/-! Elements at a path of names. A place in a tree tells which child to take at each step from the
root, and places in lexicographic order are in document order. What is read from all elements at a
path comes from them in document order, each once, and what is read from the first of them comes
from the one whose place no other precedes. -/

namespace SourceSurvey.Xml.Node

open Text

/-! ### Places -/

/-- The element at a place, where the elements on the way to it and itself have the names of a path.
-/
inductive Reaches : Node → List String → List Nat → Node → Prop
  | here (node : Node) : Reaches node [] [] node
  | step {node child found : Node} {name : String} {path : List String} {i : Nat}
      {place : List Nat} :
    node.children[i]? = some child → child.name? = some name.toList →
      Reaches child path place found →
    Reaches node (name :: path) (i :: place) found

/-- The elements at a path, with their places. -/
def placed : Node → List String → List (List Nat × Node)
  | node, [] => [([], node)]
  | node, name :: path => node.children.zipIdx.flatMap fun x =>
    if x.1.name? = some name.toList then (x.1.placed path).map fun y => (x.2 :: y.1, y.2) else []

/-- The elements at a path. -/
def elementsAt : Node → List String → List Node
  | node, [] => [node]
  | node, name :: path => (node.childrenNamed name).flatMap (·.elementsAt path)

variable {α : Type} {root found : Node} {name : String} {path : List String} {place : List Nat}

theorem elementsAt_one (node : Node) (name : String) :
    node.elementsAt [name] = node.childrenNamed name := by
  simp [elementsAt]

theorem elementsAt_two (node : Node) (first second : String) :
    node.elementsAt [first, second] = (node.childrenNamed first).flatMap
      (·.childrenNamed second) := by
  rw [elementsAt]
  simp only [elementsAt_one]

theorem map_snd_placed (node : Node) (path : List String) :
    (node.placed path).map (·.2) = node.elementsAt path := by
  induction path generalizing node with
  | nil => rfl
  | cons name path ih =>
    have children (nodes : List Node) (start : Nat) :
        ((nodes.zipIdx start).flatMap fun x => if x.1.name? = some name.toList then
          (x.1.placed path).map fun y => (x.2 :: y.1, y.2) else []).map (·.2) =
        (nodes.filter fun child => child.name? = some name.toList).flatMap (·.elementsAt path) := by
      induction nodes generalizing start with
      | nil => rfl
      | cons child nodes rest =>
        rw [List.zipIdx_cons, List.flatMap_cons, List.map_append, rest]
        by_cases named : child.name? = some name.toList
        · rw [if_pos named, List.filter_cons_of_pos (by simpa using named), List.flatMap_cons,
            List.map_map, ← ih]
          rfl
        · rw [if_neg named, List.filter_cons_of_neg (by simpa using named)]
          rfl
    exact children node.children 0

theorem mem_placed_iff : (place, found) ∈ root.placed path ↔ root.Reaches path place found := by
  induction path generalizing root place with
  | nil =>
    simp only [placed, List.mem_singleton, Prod.mk.injEq]
    constructor
    · rintro ⟨rfl, rfl⟩
      exact .here _
    · rintro ⟨⟩
      exact ⟨rfl, rfl⟩
  | cons name path ih =>
    simp only [placed, List.mem_flatMap]
    constructor
    · rintro ⟨⟨child, i⟩, hm, hf⟩
      split at hf
      · next named =>
        obtain ⟨⟨rest, node⟩, inside, same⟩ := List.mem_map.mp hf
        obtain ⟨rfl, rfl⟩ := Prod.mk.inj same
        exact .step (List.mem_zipIdx_iff_getElem?.mp hm) named (ih.mp inside)
      · exact absurd hf List.not_mem_nil
    · rintro ⟨⟩
      next child i rest hc named inside =>
      refine ⟨(child, i), List.mem_zipIdx_iff_getElem?.mpr hc, ?_⟩
      rw [if_pos named]
      exact List.mem_map.mpr ⟨(rest, found), ih.mpr inside, rfl⟩

theorem pairwise_zipIdx (l : List α) (start : Nat) :
    (l.zipIdx start).Pairwise fun a b => a.2 < b.2 := by
  induction l generalizing start with
  | nil => exact .nil
  | cons a l ih =>
    refine List.pairwise_cons.mpr ⟨fun b hb => ?_, ih (start + 1)⟩
    exact List.le_snd_of_mem_zipIdx hb

/-- Elements are listed in document order, each once. -/
theorem pairwise_placed (node : Node) (path : List String) :
    (node.placed path).Pairwise fun x y => x.1 < y.1 := by
  induction path generalizing node with
  | nil => exact List.pairwise_singleton _ _
  | cons name path ih =>
    rw [placed, List.pairwise_flatMap]
    refine ⟨fun x _ => ?_, (pairwise_zipIdx node.children 0).imp fun hij x hx y hy => ?_⟩
    · split
      · rw [List.pairwise_map]
        exact (ih x.1).imp fun h => List.cons_lt_cons_iff.mpr (.inr ⟨rfl, h⟩)
      · exact .nil
    · split at hx
      · split at hy
        · obtain ⟨x, -, rfl⟩ := List.mem_map.mp hx
          obtain ⟨y, -, rfl⟩ := List.mem_map.mp hy
          exact List.cons_lt_cons_iff.mpr (.inl hij)
        · exact absurd hy List.not_mem_nil
      · exact absurd hx List.not_mem_nil

/-! ### The first element -/

/-- The element at a path whose place no other one precedes. -/
def IsFirst (root : Node) (path : List String) (found : Node) : Prop :=
  ∃ place, root.Reaches path place found ∧ ∀ earlier other, root.Reaches path earlier other →
    ¬ earlier < place

/-- What is found first is found in an element, and in none before it. -/
theorem findSome?_elementsAt_iff {f : Node → Option α} {a : α} :
    (root.elementsAt path).findSome? f = some a ↔
    ∃ place found, root.Reaches path place found ∧ f found = some a ∧
      ∀ earlier other, root.Reaches path earlier other → earlier < place → f other = none := by
  have increasing := root.pairwise_placed path
  rw [← map_snd_placed, List.findSome?_map, List.findSome?_eq_some_iff]
  constructor
  · rintro ⟨before, ⟨place, found⟩, after, split, told, none_before⟩
    rw [split, List.pairwise_append] at increasing
    have listed : (place, found) ∈ root.placed path :=
      split ▸ List.mem_append_right _ List.mem_cons_self
    refine ⟨place, found, mem_placed_iff.mp listed, told, fun earlier other reached lt => ?_⟩
    have hm := mem_placed_iff.mpr reached
    rw [split, List.mem_append] at hm
    rcases hm with hm | hm
    · exact none_before _ hm
    · rcases List.mem_cons.mp hm with same | hm
      · rw [(Prod.mk.inj same).1] at lt
        exact absurd lt (List.lt_irrefl place)
      · exact absurd lt (List.lt_asymm ((List.pairwise_cons.mp increasing.2.1).1 _ hm))
  · rintro ⟨place, found, reached, told, none_before⟩
    obtain ⟨before, after, split⟩ := List.append_of_mem (mem_placed_iff.mpr reached)
    refine ⟨before, (place, found), after, split, told, fun x hx => ?_⟩
    rw [split, List.pairwise_append] at increasing
    have listed : x ∈ root.placed path := split ▸ List.mem_append_left _ hx
    exact none_before x.1 x.2 (mem_placed_iff.mp listed) (increasing.2.2 x hx _ List.mem_cons_self)

theorem mem_elementsAt_iff :
    found ∈ root.elementsAt path ↔ ∃ place, root.Reaches path place found := by
  rw [← map_snd_placed, List.mem_map]
  constructor
  · rintro ⟨x, hx, rfl⟩
    exact ⟨x.1, mem_placed_iff.mp hx⟩
  · rintro ⟨place, reached⟩
    exact ⟨_, mem_placed_iff.mpr reached, rfl⟩

theorem head?_elementsAt_iff :
    (root.elementsAt path).head? = some found ↔ root.IsFirst path found := by
  have first : (root.elementsAt path).head? = (root.elementsAt path).findSome? some := by
    cases root.elementsAt path <;> rfl
  rw [first, findSome?_elementsAt_iff]
  constructor
  · rintro ⟨place, other, reached, same, none_before⟩
    rw [Option.some_inj] at same
    subst same
    exact ⟨place, reached, fun earlier other before lt =>
      absurd (none_before earlier other before lt) (by simp)⟩
  · rintro ⟨place, reached, none_before⟩
    exact ⟨place, found, reached, rfl, fun earlier other before lt =>
      absurd lt (none_before earlier other before)⟩

/-! ### All elements -/

/-- Entries that stand for the elements at a path that count, one for one and in document order. -/
def Lists (root : Node) (path : List String) (Counts : Node → Prop) (Tells : Node → α → Prop)
    (entries : List α) : Prop :=
  ∃ found : List (List Nat × Node), found.Pairwise (fun x y => x.1 < y.1) ∧
    (∀ place node, (place, node) ∈ found ↔ root.Reaches path place node ∧ Counts node) ∧
    List.Forall₂ (fun x a => Tells x.2 a) found entries

theorem lists_filterMap {Counts : Node → Prop} {Tells : Node → α → Prop} {f : Node → Option α}
    (hc : ∀ node, (f node).isSome = true ↔ Counts node)
    (hf : ∀ node a, f node = some a → Tells node a) (root : Node) (path : List String) :
    root.Lists path Counts Tells ((root.elementsAt path).filterMap f) := by
  refine ⟨(root.placed path).filter fun x =>
    (f x.2).isSome, (root.pairwise_placed path).filter _, ?_, ?_⟩
  · intro place node
    rw [List.mem_filter, mem_placed_iff, hc]
  · rw [← map_snd_placed, List.filterMap_map]
    induction root.placed path with
    | nil => exact .nil
    | cons x placed ih =>
      cases told : f x.2 with
      | none => simpa [told] using ih
      | some a => simpa [told] using ⟨hf x.2 a told, ih⟩

/-! ### Texts and attributes -/

/-- Whether children begin with a text, of which something is left when it is trimmed. -/
def BeginWith (children : List Node) (v : Text) : Prop :=
  ∃ t rest, children = .text t :: rest ∧ v = trim t ∧ v ≠ []

/-- The text of an element is the one that it begins with. -/
def HasText (node : Node) (v : Text) : Prop := BeginWith node.children v

/-- Whether something is left of the value of an attribute that stands in no namespace. -/
def HasAttribute (node : Node) (name : String) (v : Text) : Prop :=
  ∃ before a after, node.attributes = before ++ a :: after ∧
    (a.space = none ∧ a.name = name.toList) ∧
    (∀ other ∈ before, ¬ (other.space = none ∧ other.name = name.toList)) ∧
      v = trim a.value ∧ v ≠ []

theorem nonBlank?_eq_some_iff {t v : Text} : nonBlank? t = some v ↔ v = trim t ∧ v ≠ [] := by
  rw [nonBlank?]
  split
  · next blank =>
    constructor
    · intro h
      exact absurd h (by simp)
    · rintro ⟨rfl, left⟩
      exact absurd blank left
  · next left =>
    rw [Option.some_inj]
    constructor
    · rintro rfl
      exact ⟨rfl, left⟩
    · rintro ⟨rfl, -⟩
      rfl

theorem text?_eq_some_iff {node : Node} {v : Text} : node.text? = some v ↔ node.HasText v := by
  rw [text?, HasText, BeginWith]
  split
  · next t rest children =>
    rw [nonBlank?_eq_some_iff, children]
    constructor
    · exact fun h => ⟨t, rest, rfl, h⟩
    · rintro ⟨_, _, same, h⟩
      cases same
      exact h
  · next other =>
    constructor
    · intro h
      exact absurd h (by simp)
    · rintro ⟨t, rest, children, -⟩
      exact absurd children (other t rest)

theorem attribute?_eq_some_iff {node : Node} {v : Text} :
    node.attribute? name = some v ↔ node.HasAttribute name v := by
  rw [attribute?, Option.bind_eq_some_iff]
  simp only [nonBlank?_eq_some_iff, List.find?_eq_some_iff_append, decide_eq_true_eq,
    Bool.not_eq_true', decide_eq_false_iff_not]
  constructor
  · rintro ⟨a, ⟨named, before, after, split, others⟩, told⟩
    exact ⟨before, a, after, split, named, others, told⟩
  · rintro ⟨before, a, after, split, named, others, told⟩
    exact ⟨a, ⟨named, before, after, split, others⟩, told⟩

/-- What the first element at a path that has a text has for one, and nothing if there is none. -/
structure FirstText (root : Node) (path : List String) (value : Option Text) : Prop where
  some_iff : ∀ v, value = some v ↔ ∃ place found, root.Reaches path place found ∧ found.HasText v ∧
    ∀ earlier other, root.Reaches path earlier other → earlier < place → ∀ w, ¬ other.HasText w
  none_iff : value = none ↔ ∀ place found, root.Reaches path place found → ∀ v, ¬ found.HasText v

/-- What the first element at a path has for a text; without one, or if there is none, nothing. -/
def TextOfFirst (root : Node) (path : List String) (value : Option Text) : Prop :=
  ∀ v, value = some v ↔ ∃ found, root.IsFirst path found ∧ found.HasText v

theorem text?_eq_none_iff {node : Node} : node.text? = none ↔ ∀ v, ¬ node.HasText v := by
  rw [Option.eq_none_iff_forall_ne_some]
  simp only [ne_eq, text?_eq_some_iff]

theorem firstText_findSome? (root : Node) (path : List String) :
    root.FirstText path ((root.elementsAt path).findSome? text?) := by
  constructor
  · intro v
    simp only [findSome?_elementsAt_iff, text?_eq_some_iff, text?_eq_none_iff]
  · rw [List.findSome?_eq_none_iff]
    simp only [mem_elementsAt_iff, text?_eq_none_iff]
    constructor
    · exact fun h place found reached => h found ⟨place, reached⟩
    · rintro h found ⟨place, reached⟩
      exact h place found reached

theorem textOfFirst_childText? (node : Node) (name : String) :
    node.TextOfFirst [name] (node.childText? name) := by
  intro v
  rw [childText?, child?, ← elementsAt_one, Option.bind_eq_some_iff]
  simp only [head?_elementsAt_iff, text?_eq_some_iff]

theorem firstText_iff {value : Option Text} :
    root.FirstText path value ↔ (root.elementsAt path).findSome? text? = value := by
  have first := firstText_findSome? root path
  constructor
  · exact fun h => Option.ext fun v => (first.some_iff v).trans (h.some_iff v).symm
  · rintro rfl
    exact first

theorem textOfFirst_iff {node : Node} {value : Option Text} :
    node.TextOfFirst [name] value ↔ node.childText? name = value := by
  have first := textOfFirst_childText? node name
  constructor
  · exact fun h => Option.ext fun v => (first v).trans (h v).symm
  · rintro rfl
    exact first

/-! ### Elements that are alike -/

/-- Whether two elements have the same text, or both have none. -/
def SameText (a b : Node) : Prop := ∀ v, a.HasText v ↔ b.HasText v

/-- Whether two elements cannot be told apart by attributes, nor by the texts of their children of
some names. -/
structure SameItem (names : List String) (a b : Node) : Prop where
  attributes : ∀ name v, a.HasAttribute name v ↔ b.HasAttribute name v
  texts : ∀ name ∈ names, List.Forall₂ SameText (a.elementsAt [name]) (b.elementsAt [name])

variable {a b : Node} {names : List String}

theorem SameText.refl (a : Node) : a.SameText a := fun _ => Iff.rfl

theorem SameItem.refl (names : List String) (a : Node) : a.SameItem names a :=
  ⟨fun _ _ => Iff.rfl, fun _ _ => List.forall₂_same.mpr fun b _ => .refl b⟩

theorem SameText.text?_eq (h : a.SameText b) : a.text? = b.text? := by
  refine Option.ext fun v => ?_
  rw [text?_eq_some_iff, text?_eq_some_iff]
  exact h v

theorem SameItem.attribute?_eq (h : a.SameItem names b) (name : String) :
    a.attribute? name = b.attribute? name := by
  refine Option.ext fun v => ?_
  rw [attribute?_eq_some_iff, attribute?_eq_some_iff]
  exact h.attributes name v

/-- Elements that pair up give the same where the two of every pair do. -/
theorem map_congr_pairs {R : Node → Node → Prop} {f : Node → α} (hf : ∀ a b, R a b → f a = f b)
    {as bs : List Node} (h : List.Forall₂ R as bs) : as.map f = bs.map f := by
  have pairs : List.Forall₂ Eq (as.map f) (bs.map f) := List.rel_map (fun a b hab => hf a b hab) h
  rwa [List.forall₂_eq_eq_eq] at pairs

theorem filterMap_congr_pairs {R : Node → Node → Prop} {f : Node → Option α}
    (hf : ∀ a b, R a b → f a = f b)
    {as bs : List Node} (h : List.Forall₂ R as bs) : as.filterMap f = bs.filterMap f := by
  rw [← Function.id_comp f, ← List.filterMap_map, map_congr_pairs hf h, List.filterMap_map]

theorem findSome?_text?_congr {as bs : List Node} (h : List.Forall₂ SameText as bs) :
    as.findSome? text? = bs.findSome? text? := by
  have texts : as.map text? = bs.map text? := map_congr_pairs (fun _ _ same => same.text?_eq) h
  rw [← Function.id_comp text?, ← List.findSome?_map, texts, List.findSome?_map]

theorem childText?_congr (h : List.Forall₂ SameText (a.elementsAt [name]) (b.elementsAt [name])) :
    a.childText? name = b.childText? name := by
  rw [elementsAt_one, elementsAt_one] at h
  rw [childText?, childText?, child?, child?]
  generalize a.childrenNamed name = as, b.childrenNamed name = bs at h
  cases h with
  | nil => rfl
  | cons same _ => exact same.text?_eq

theorem SameItem.childText?_eq (h : a.SameItem names b) (hm : name ∈ names) :
    a.childText? name = b.childText? name :=
  childText?_congr (h.texts name hm)

end SourceSurvey.Xml.Node
