import SourceSurvey.Proofs.Clause
import Mathlib.Data.List.Pairwise

/-! Where the entries of a list stand. The depth of a place is told by all of the text in front of
it, and it is zero again behind every comma that separates two entries. So a single pass over the
text finds the stretches between these commas, and what an entry says about its own commas is what
the text says about them. -/

namespace SourceSurvey.Source

open Text

/-! ### Depths of places -/

/-- The angle bracket depth in front of a place of a text. -/
def depthAt (t : Text) (i : Nat) : Nat := (t.take i).foldl angleDepth 0

/-- A place of a text where a comma stands at depth zero. -/
def IsCut (t : Text) (i : Nat) : Prop := t[i]? = some ',' ∧ depthAt t i = 0

variable {t x y p a b rest : Text} {c : Char} {i j : Nat}

theorem depthAt_append (x y : Text) (j : Nat) :
    depthAt (x ++ y) (x.length + j) = (y.take j).foldl angleDepth (x.foldl angleDepth 0) := by
  rw [depthAt, List.take_length_add_append, List.foldl_append]

theorem isCut_append_cons (x : Text) (c : Char) (y : Text) :
    IsCut (x ++ c :: y) x.length ↔ c = ',' ∧ x.foldl angleDepth 0 = 0 := by
  have depth := depthAt_append x (c :: y) 0
  rw [Nat.add_zero, List.take_zero, List.foldl_nil] at depth
  rw [IsCut, depth, List.getElem?_append_right (Nat.le_refl _), Nat.sub_self,
    List.getElem?_cons_zero, Option.some_inj]

theorem IsCut.lt_length (h : IsCut t i) : i < t.length := (List.getElem?_eq_some_iff.mp h.1).1

/-- The comma of a cut leaves the depth at zero. -/
theorem IsCut.depthAt_succ (h : IsCut t i) : depthAt t (i + 1) = 0 := by
  rw [depthAt, List.take_add_one, h.1, List.foldl_append, ← depthAt, h.2]
  rfl

/-- A cut of a part is a cut of the whole, if the part begins at depth zero. -/
theorem IsCut.inside (h : IsCut p j) (hx : x.foldl angleDepth 0 = 0) (y : Text) :
    IsCut (x ++ (p ++ y)) (x.length + j) := by
  have bound := h.lt_length
  refine ⟨?_, ?_⟩
  · rw [List.getElem?_append_right (Nat.le_add_right _ _), Nat.add_sub_cancel_left,
      List.getElem?_append_left bound, h.1]
  · rw [depthAt_append, hx, List.take_append_of_le_length (Nat.le_of_lt bound), ← depthAt, h.2]

theorem foldl_angleDepth_of_blank (hb : Blank b)
    (depth : Nat) : b.foldl angleDepth depth = depth := by
  induction b with
  | nil => rfl
  | cons c b ih =>
    rw [List.foldl_cons, angleDepth_of_isBlank (hb c List.mem_cons_self), ih fun d hd =>
      hb d (List.mem_cons_of_mem c hd)]

/-! ### Stretches -/

/-- The places of a text from a start to a stop, without the stop. -/
@[ext]
structure Stretch where
  start : Nat
  stop : Nat

namespace Stretch

variable {s u : Stretch}

/-- What a text says along a stretch. -/
def text (t : Text) (s : Stretch) : Text := (t.drop s.start).take (s.stop - s.start)

/-- A place is one of a stretch. -/
def Holds (s : Stretch) (i : Nat) : Prop := s.start ≤ i ∧ i < s.stop

/-- A stretch that begins with the text or behind a cut, and is not cut. -/
structure IsUncut (t : Text) (s : Stretch) : Prop where
  le : s.start ≤ s.stop
  inside : s.stop ≤ t.length
  begun : s.start = 0 ∨ ∃ i, IsCut t i ∧ s.start = i + 1
  uncut : ∀ i, s.Holds i → ¬IsCut t i

/-- A largest stretch between the cuts of a text. -/
structure IsPiece (t : Text) (s : Stretch) : Prop extends s.IsUncut t where
  ended : s.stop = t.length ∨ IsCut t s.stop

theorem text_eq (ht : t = x ++ (p ++ y)) (start : s.start = x.length)
    (stop : s.stop = x.length + p.length) :
    s.text t = p := by
  rw [text, start, stop, ht, List.drop_left, Nat.add_sub_cancel_left, List.take_left]

/-- A text is what stands in front of a stretch, along it and behind it. -/
theorem exists_text (le : s.start ≤ s.stop) (inside : s.stop ≤ t.length) :
    ∃ x y, t = x ++ (s.text t ++ y) ∧ s.start = x.length ∧
      s.stop = x.length + (s.text t).length := by
  refine ⟨t.take s.start, (t.drop s.start).drop (s.stop - s.start), ?_, ?_, ?_⟩
  · rw [text, List.take_append_drop, List.take_append_drop]
  · rw [List.length_take]
    omega
  · rw [text, List.length_take, List.length_take, List.length_drop]
    omega

theorem text_ne_nil_iff (inside : s.stop ≤ t.length) : s.text t ≠ [] ↔ s.start < s.stop := by
  rw [← List.length_pos_iff, text, List.length_take, List.length_drop]
  omega

theorem IsUncut.depthAt_start (h : s.IsUncut t) : depthAt t s.start = 0 := by
  rcases h.begun with start | ⟨i, cut, start⟩
  · rw [start]
    rfl
  · rw [start, cut.depthAt_succ]

/-- An uncut stretch has no cut of its own. -/
theorem IsUncut.not_isCut_text (h : s.IsUncut t) (i : Nat) : ¬IsCut (s.text t) i := by
  intro cut
  obtain ⟨x, y, ht, start, stop⟩ := exists_text h.le h.inside
  have zero : x.foldl angleDepth 0 = 0 := by
    have depth := h.depthAt_start
    rwa [depthAt, start, ht, List.take_left] at depth
  have bound := cut.lt_length
  refine h.uncut (x.length + i) ⟨by omega, by omega⟩ ?_
  have whole := cut.inside zero y
  rwa [← ht] at whole

/-- An uncut stretch that begins no later than a piece, but cannot go on, is the piece or ends in
front of it. -/
theorem IsUncut.eq_or_lt (h : s.IsUncut t) (ended : s.stop = t.length ∨ IsCut t s.stop)
    (hu : u.IsPiece t) (le : s.start ≤ u.start) : u = s ∨ s.stop < u.start := by
  have begun := hu.begun
  have bound := hu.le
  have inside := hu.inside
  by_cases same : u.start = s.start
  · left
    have stop : u.stop = s.stop := by
      rcases Nat.lt_trichotomy u.stop s.stop with less | same | more
      · rcases hu.ended with whole | cut
        · have := h.inside
          omega
        · exact absurd cut (h.uncut u.stop ⟨by omega, less⟩)
      · exact same
      · rcases ended with whole | cut
        · omega
        · have := h.le
          exact absurd cut (hu.uncut s.stop ⟨by omega, more⟩)
    exact Stretch.ext same stop
  · right
    rcases begun with start | ⟨i, cut, start⟩
    · omega
    · by_contra hn
      exact h.uncut i ⟨by omega, by omega⟩ cut

end Stretch

/-! ### The pass over a text -/

/-- The stretches between the cuts of a text, from the stretch that has been read so far and the
depth behind it. -/
def stretchesFrom : Stretch → Nat → Text → List Stretch
  | s, _, [] => [s]
  | s, depth, c :: rest =>
    if c = ',' ∧ depth = 0 then s :: stretchesFrom ⟨s.stop + 1, s.stop + 1⟩ 0 rest
    else stretchesFrom ⟨s.start, s.stop + 1⟩ (angleDepth depth c) rest

variable {s u : Stretch}

/-- A character that is no cut makes an uncut stretch longer. -/
theorem Stretch.IsUncut.next (h : s.IsUncut t) (stop : s.stop < t.length) (hc : ¬IsCut t s.stop) :
    Stretch.IsUncut t ⟨s.start, s.stop + 1⟩ where
  le := Nat.le_succ_of_le h.le
  inside := stop
  begun := h.begun
  uncut := by
    rintro i ⟨start, bound⟩ cut
    rcases Nat.lt_succ_iff_lt_or_eq.mp bound with less | rfl
    · exact h.uncut i ⟨start, less⟩ cut
    · exact hc cut

/-- Behind a cut there begins a stretch. -/
theorem IsCut.isUncut (h : IsCut t i) : Stretch.IsUncut t ⟨i + 1, i + 1⟩ where
  le := Nat.le_refl _
  inside := h.lt_length
  begun := .inr ⟨i, h, rfl⟩
  uncut := fun _ hj => absurd (Nat.lt_of_le_of_lt hj.1 hj.2) (Nat.lt_irrefl _)

/-- The pass finds the pieces that begin with the stretch read so far or behind it, in order, and
every place that is no cut is in one of them. -/
structure Finds (t : Text) (s : Stretch) (found : List Stretch) : Prop where
  mem_iff : ∀ u, u ∈ found ↔ u.IsPiece t ∧ s.start ≤ u.start
  ordered : found.Pairwise fun a b => a.stop < b.start
  holds : ∀ i, s.start ≤ i → i < t.length → ¬IsCut t i → ∃ u ∈ found, u.Holds i

theorem Finds.last (h : s.IsUncut t) (stop : s.stop = t.length) : Finds t s [s] where
  mem_iff u := by
    rw [List.mem_singleton]
    constructor
    · rintro rfl
      exact ⟨{ h with ended := .inl stop }, Nat.le_refl _⟩
    · rintro ⟨piece, le⟩
      refine (h.eq_or_lt (.inl stop) piece le).resolve_right fun behind => ?_
      have := piece.le
      have := piece.inside
      omega
  ordered := List.pairwise_singleton _ _
  holds i start bound _ := ⟨s, List.mem_singleton_self s, start, by omega⟩

/-- At a cut, the stretch read so far is a piece, and the others are found behind it. -/
theorem Finds.cut {found : List Stretch} (h : s.IsUncut t) (hc : IsCut t s.stop)
    (later : Finds t ⟨s.stop + 1, s.stop + 1⟩ found) : Finds t s (s :: found) where
  mem_iff u := by
    rw [List.mem_cons, later.mem_iff]
    constructor
    · rintro (rfl | ⟨piece, le⟩)
      · exact ⟨{ h with ended := .inr hc }, Nat.le_refl _⟩
      · exact ⟨piece, Nat.le_trans h.le (Nat.le_of_succ_le le)⟩
    · rintro ⟨piece, le⟩
      exact (h.eq_or_lt (.inr hc) piece le).imp_right fun behind => ⟨piece, behind⟩
  ordered := List.pairwise_cons.mpr ⟨fun u hu => ((later.mem_iff u).mp hu).2, later.ordered⟩
  holds i start bound hi := by
    rcases Nat.lt_trichotomy i s.stop with less | rfl | more
    · exact ⟨s, List.mem_cons_self, start, less⟩
    · exact absurd hc hi
    · obtain ⟨u, hu, inside⟩ := later.holds i more bound hi
      exact ⟨u, List.mem_cons_of_mem s hu, inside⟩

/-- By induction on what is left of the text; the stretch read so far stays uncut. -/
theorem finds_stretchesFrom (ht : t = x ++ rest) (stop : s.stop = x.length) (h : s.IsUncut t) :
    Finds t s (stretchesFrom s (x.foldl angleDepth 0) rest) := by
  induction rest generalizing x s with
  | nil => exact .last h (by rw [stop, ht, List.append_nil])
  | cons c rest ih =>
    have read : t = (x ++ [c]) ++ rest := by rw [ht, List.append_assoc, List.singleton_append]
    have length : s.stop + 1 = (x ++ [c]).length := by
      rw [stop, List.length_append, List.length_singleton]
    have here : IsCut t s.stop ↔ c = ',' ∧ x.foldl angleDepth 0 = 0 := by
      rw [ht, stop, isCut_append_cons]
    have depth : (x ++ [c]).foldl angleDepth 0 = angleDepth (x.foldl angleDepth 0) c := by
      rw [List.foldl_append, List.foldl_cons, List.foldl_nil]
    rw [stretchesFrom]
    split
    · next hc =>
      have cut := here.mpr hc
      have zero : (x ++ [c]).foldl angleDepth 0 = 0 := by
        rw [depth, hc.1, hc.2]
        rfl
      have later := ih read length cut.isUncut
      rw [zero] at later
      exact .cut h cut later
    · next hc =>
      have bound : s.stop < t.length := by
        rw [ht, stop, List.length_append, List.length_cons]
        omega
      rw [← depth]
      have later := ih read length (h.next bound fun cut => hc (here.mp cut))
      exact ⟨later.mem_iff, later.ordered, later.holds⟩

theorem modifyHead_nil_append (pieces : List Text) : pieces.modifyHead ([] ++ ·) = pieces :=
  congrFun List.modifyHead_id pieces

/-- The pieces of a text are written along the stretches that the pass finds. -/
theorem map_text_stretchesFrom (ht : t = x ++ (p ++ rest)) (start : s.start = x.length)
    (stop : s.stop = x.length + p.length) (depth : Nat) :
    (stretchesFrom s depth rest).map (·.text t) = (piecesFrom depth rest).modifyHead (p ++ ·) := by
  induction rest generalizing x p s depth with
  | nil => simp [stretchesFrom, piecesFrom, Stretch.text_eq ht start stop]
  | cons c rest ih =>
    rw [stretchesFrom, piecesFrom]
    split
    · have later :=
        ih (x := x ++ (p ++ [c])) (p := []) (s := ⟨s.stop + 1, s.stop + 1⟩) (by simpa using ht)
        (by simp [stop, Nat.add_assoc]) (by simp [stop, Nat.add_assoc]) 0
      rw [List.map_cons, later, Stretch.text_eq ht start stop, modifyHead_nil_append,
        List.modifyHead_cons, List.append_nil]
    · have later :=
        ih (x := x) (p := p ++ [c]) (s := ⟨s.start, s.stop + 1⟩) (by simpa using ht) start
        (by simp [stop, Nat.add_assoc]) (angleDepth depth c)
      rw [later]
      cases piecesFrom (angleDepth depth c) rest <;> simp

theorem Stretch.isUncut_nil (t : Text) : Stretch.IsUncut t ⟨0, 0⟩ where
  le := Nat.le_refl 0
  inside := Nat.zero_le _
  begun := .inl rfl
  uncut := fun i hi => absurd hi.2 (Nat.not_lt_zero i)

/-- The largest stretches between the cuts of a text, from left to right. -/
def stretches (t : Text) : List Stretch := stretchesFrom ⟨0, 0⟩ 0 t

theorem finds_stretches (t : Text) : Finds t ⟨0, 0⟩ (stretches t) :=
  finds_stretchesFrom (List.nil_append t).symm rfl (Stretch.isUncut_nil t)

theorem isPiece_of_mem_stretches (h : s ∈ stretches t) : s.IsPiece t :=
  ((finds_stretches t).mem_iff s |>.mp h).1

theorem map_text_stretches (t : Text) : (stretches t).map (·.text t) = piecesFrom 0 t := by
  have told := map_text_stretchesFrom (t := t) (x := []) (p := []) (s := ⟨0, 0⟩) rfl rfl rfl 0
  rwa [modifyHead_nil_append] at told

/-! ### Trimmed stretches -/

namespace Stretch

/-- A stretch without the blanks at its ends. -/
def trimmed (t : Text) (s : Stretch) : Stretch :=
  let start := s.start + ((s.text t).takeWhile isBlank).length
  ⟨start, start + (trim (s.text t)).length⟩

/-- A trimmed stretch is what trimming keeps of its text; what stands around it in the stretch is
blank. -/
theorem exists_trimmed (le : s.start ≤ s.stop) (inside : s.stop ≤ t.length) :
    ∃ a b, s.text t = a ++ (trim (s.text t) ++ b) ∧ Blank a ∧ Blank b ∧
      (s.trimmed t).text t = trim (s.text t) ∧
      (s.trimmed t).start = s.start + a.length ∧ s.stop = (s.trimmed t).stop + b.length := by
  obtain ⟨x, y, ht, start, stop⟩ := exists_text le inside
  obtain ⟨b, hb, blank, -⟩ := exists_trimEnd (trimStart (s.text t))
  have split : s.text t = (s.text t).takeWhile isBlank ++ (trim (s.text t) ++ b) := by
    rw [trim, ← hb, trimStart, List.takeWhile_append_dropWhile]
  have length := congrArg List.length split
  rw [List.length_append, List.length_append] at length
  refine ⟨_, b, split, List.all_eq_true.mp List.all_takeWhile, blank, ?_, rfl, ?_⟩
  · refine text_eq (x := x ++ (s.text t).takeWhile isBlank) (y := b ++ y) ?_ ?_ ?_
    · rw [List.append_assoc, ← List.append_assoc _ b y, ← List.append_assoc _ _ y, ← split, ← ht]
    · rw [List.length_append, ← start, trimmed]
    · rw [List.length_append, ← start, trimmed]
  · rw [trimmed]
    dsimp only
    omega

theorem trimmed_inside (h : s.IsPiece t) :
    s.start ≤ (s.trimmed t).start ∧ (s.trimmed t).stop ≤ s.stop := by
  obtain ⟨a, b, -, -, -, -, start, stop⟩ := exists_trimmed h.le h.inside
  omega

theorem text_trimmed (h : s.IsPiece t) : (s.trimmed t).text t = trim (s.text t) := by
  obtain ⟨-, -, -, -, -, told, -⟩ := exists_trimmed h.le h.inside
  exact told

theorem text_trimmed_ne_nil_iff (h : s.IsPiece t) :
    (s.trimmed t).text t ≠ [] ↔ (s.trimmed t).start < (s.trimmed t).stop :=
  text_ne_nil_iff (Nat.le_trans (trimmed_inside h).2 h.inside)

/-- The blanks in front of a part do not change its depths. -/
theorem not_isCut_trimmed (h : s.IsPiece t) (i : Nat) : ¬IsCut ((s.trimmed t).text t) i := by
  obtain ⟨a, b, split, ha, -, told, -⟩ := exists_trimmed h.le h.inside
  intro cut
  rw [told] at cut
  have whole := cut.inside (foldl_angleDepth_of_blank ha 0) b
  rw [← split] at whole
  exact h.not_isCut_text _ whole

/-- Trimming loses blanks alone. -/
theorem holds_trimmed (h : s.IsPiece t) (hi : s.Holds i) (hc : t[i]? = some c)
    (solid : isBlank c = false) :
    (s.trimmed t).Holds i := by
  obtain ⟨a, b, split, ha, hb, -, start, stop⟩ := exists_trimmed h.le h.inside
  have told : (s.text t)[i - s.start]? = some c := by
    have place : s.start + (i - s.start) = i := Nat.add_sub_cancel' hi.1
    rw [text, List.getElem?_take_of_lt (Nat.sub_lt_sub_right hi.1 hi.2),
      List.getElem?_drop, place, hc]
  have gone {e : Text} (he : Blank e) : c ∉ e := fun hm => absurd (he c hm) (by simp [solid])
  have length : (s.trimmed t).stop = (s.trimmed t).start + (trim (s.text t)).length := rfl
  rw [split] at told
  by_contra hn
  by_cases front : i - s.start < a.length
  · rw [List.getElem?_append_left front] at told
    exact gone ha (List.mem_of_getElem? told)
  · have behind : a.length + (trim (s.text t)).length ≤ i - s.start := by
      by_contra hl
      have := hi.1
      exact hn ⟨by omega, by omega⟩
    rw [← List.append_assoc, List.getElem?_append_right (by rwa [List.length_append])] at told
    exact gone hb (List.mem_of_getElem? told)

end Stretch

/-! ### Parts of a list -/

/-- The stretches of the entries of a list. -/
def partsOf (t : Text) : List Stretch :=
  ((stretches t).map (·.trimmed t)).filter fun u => u.text t ≠ []

theorem mem_partsOf : u ∈ partsOf t ↔ ∃ s ∈ stretches t, s.trimmed t = u ∧ u.text t ≠ [] := by
  rw [partsOf, List.mem_filter, List.mem_map, decide_eq_true_eq]
  constructor
  · rintro ⟨⟨s, hs, told⟩, hn⟩
    exact ⟨s, hs, told, hn⟩
  · rintro ⟨s, hs, told, hn⟩
    exact ⟨⟨s, hs, told⟩, hn⟩

theorem map_trim_stretches (t : Text) :
    ((stretches t).map (·.trimmed t)).map (·.text t) = ((stretches t).map (·.text t)).map trim := by
  rw [List.map_map, List.map_map]
  exact List.map_congr_left fun s hs => Stretch.text_trimmed (isPiece_of_mem_stretches hs)

/-- The stretches between the cuts of a text, each one once, from left to right. -/
structure ArePieces (t : Text) (pieces : List Stretch) : Prop where
  mem_iff : ∀ s, s ∈ pieces ↔ s.IsPiece t
  ordered : pieces.Pairwise fun a b => a.stop < b.start

/-- Stretches one behind the other that hold all of a text but its cuts and blanks. -/
structure AreParts (t : Text) (parts : List Stretch) : Prop where
  inside : ∀ s ∈ parts, s.start < s.stop ∧ s.stop ≤ t.length
  ordered : parts.Pairwise fun a b => a.stop < b.start
  uncut : ∀ s ∈ parts, ∀ i, s.Holds i → ¬IsCut t i
  once : ∀ i c, t[i]? = some c → isBlank c = false → ¬IsCut t i → ∃! s, s ∈ parts ∧ s.Holds i

theorem arePieces_stretches (t : Text) : ArePieces t (stretches t) where
  mem_iff s := by
    rw [(finds_stretches t).mem_iff]
    exact and_iff_left (Nat.zero_le _)
  ordered := (finds_stretches t).ordered

theorem pairwise_partsOf (t : Text) : (partsOf t).Pairwise fun a b => a.stop < b.start := by
  refine List.Pairwise.filter _ (List.pairwise_map.mpr ((finds_stretches t).ordered.imp_of_mem ?_))
  intro s u hs hu behind
  have first := Stretch.trimmed_inside (isPiece_of_mem_stretches hs)
  have second := Stretch.trimmed_inside (isPiece_of_mem_stretches hu)
  omega

/-- A place is in one stretch at most of those that stand one behind the other. -/
theorem eq_of_holds {parts : List Stretch} (h : parts.Pairwise fun a b => a.stop < b.start)
    (hs : s ∈ parts) (hu : u ∈ parts) (his : s.Holds i) (hiu : u.Holds i) : s = u := by
  have apart : parts.Pairwise fun a b => ¬(a.Holds i ∧ b.Holds i) := h.imp fun behind both => by
    have := both.1.2
    have := both.2.1
    omega
  have symmetric : Std.Symm fun a b : Stretch => ¬(a.Holds i ∧ b.Holds i) :=
    ⟨fun a b told both => told both.symm⟩
  by_contra other
  exact apart.forall hs hu other ⟨his, hiu⟩

theorem areParts_partsOf (t : Text) : AreParts t (partsOf t) where
  inside u hu := by
    obtain ⟨s, hs, rfl, hn⟩ := mem_partsOf.mp hu
    have piece := isPiece_of_mem_stretches hs
    exact ⟨(Stretch.text_trimmed_ne_nil_iff piece).mp hn,
      Nat.le_trans (Stretch.trimmed_inside piece).2 piece.inside⟩
  ordered := pairwise_partsOf t
  uncut u hu i hi := by
    obtain ⟨s, hs, rfl, -⟩ := mem_partsOf.mp hu
    have piece := isPiece_of_mem_stretches hs
    have inside := Stretch.trimmed_inside piece
    exact piece.uncut i ⟨Nat.le_trans inside.1 hi.1, Nat.lt_of_lt_of_le hi.2 inside.2⟩
  once i c hc solid hi := by
    have bound : i < t.length := (List.getElem?_eq_some_iff.mp hc).1
    obtain ⟨s, hs, held⟩ := (finds_stretches t).holds i (Nat.zero_le i) bound hi
    have piece := isPiece_of_mem_stretches hs
    have kept := Stretch.holds_trimmed piece held hc solid
    have told := (Stretch.text_trimmed_ne_nil_iff piece).mpr (Nat.lt_of_le_of_lt kept.1 kept.2)
    have part : s.trimmed t ∈ partsOf t := mem_partsOf.mpr ⟨s, hs, rfl, told⟩
    exact ⟨_, ⟨part, kept⟩, fun u hu => eq_of_holds (pairwise_partsOf t) hu.1 part hu.2 kept⟩

theorem splitParameters_eq (t : Text) :
    splitParameters t = (((stretches t).map (·.text t)).map trim).filter (· ≠ []) := by
  rw [map_text_stretches, splitParameters]

theorem splitParameters_eq_partsOf (t : Text) : splitParameters t = (partsOf t).map (·.text t) := by
  rw [splitParameters_eq, ← map_trim_stretches, List.filter_map]
  rfl

theorem not_blank_of_mem_splitParameters (h : p ∈ splitParameters t) : ¬Blank p := by
  obtain ⟨hp, hn⟩ := List.mem_filter.mp h
  obtain ⟨piece, -, rfl⟩ := List.mem_map.mp hp
  rw [← words_eq_nil_iff, words_trim, words_eq_nil_iff, ← trim_eq_nil_iff]
  exact of_decide_eq_true hn

/-- No entry of a clause is lost when its blanks are collapsed. -/
theorem splitClause_eq (t : Text) : splitClause (some t) = (splitParameters t).map collapse := by
  refine List.filter_eq_self.mpr fun entry hm => ?_
  obtain ⟨part, hp, rfl⟩ := List.mem_map.mp hm
  rw [decide_eq_true_eq, ne_eq, collapse_eq_nil_iff]
  exact not_blank_of_mem_splitParameters hp

/-- The entries of a list are its trimmed pieces, without the empty ones. So they stand in the text
one behind the other, hold all of it but its cuts and blanks, and have no cut of their own; and the
entries of a clause are these with single spaces, none of them empty. -/
theorem splitParameters_lossless (t : Text) :
    ∃ pieces parts, ArePieces t pieces ∧ AreParts t parts ∧
      splitParameters t = ((pieces.map (·.text t)).map trim).filter (· ≠ []) ∧
      splitParameters t = parts.map (·.text t) ∧
      (∀ part ∈ splitParameters t, ∀ i, ¬IsCut part i) ∧
      splitClause (some t) = (splitParameters t).map collapse ∧ [] ∉ splitClause (some t) ∧
        splitClause none = [] := by
  refine ⟨stretches t, partsOf t, arePieces_stretches t, areParts_partsOf t, splitParameters_eq t,
    splitParameters_eq_partsOf t, fun part hm i => ?_, splitClause_eq t, fun hm => ?_, rfl⟩
  · rw [splitParameters_eq_partsOf] at hm
    obtain ⟨u, hu, rfl⟩ := List.mem_map.mp hm
    obtain ⟨s, hs, rfl, -⟩ := mem_partsOf.mp hu
    exact Stretch.not_isCut_trimmed (isPiece_of_mem_stretches hs) i
  · have some := (List.mem_filter.mp hm).2
    simp at some

/-- A bracket closed without being opened counts for nothing, and one that stays open keeps the
commas behind it. -/
example : splitParameters "a>, b<c, d".toList = ["a>".toList, "b<c, d".toList] := by decide

end SourceSurvey.Source
