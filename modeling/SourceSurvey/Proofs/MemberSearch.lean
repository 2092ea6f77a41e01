import SourceSurvey.Proofs.Offsets

/-! The search for members, step by step. It asks for the first match at or behind an offset; where
that starts inside of an attribute, it goes on one character behind the start, and else behind the
match. Whatever is searched for, if a search finds the first match and a match is told by the place
at which it starts, then every step goes on at a later boundary, and no match that starts outside of
attributes is stepped over: the search ends, and what it takes is the greedy choice of matches from
the left. -/

namespace SourceSurvey.Pattern

open Text Source

variable {σ : Type} {t : Text} {matchAt : Cursor → Option (Match σ)} {refuses : Nat → Bool}
  {pos next : Nat} {m n : Match σ} {ms ns : List (Match σ)}

/-! ### First matches -/

/-- No match starts at or behind an offset but where it is refused. -/
def NoneFrom (t : Text) (matchAt : Cursor → Option (Match σ)) (refuses : Nat → Bool)
    (pos : Nat) : Prop :=
  ∀ here, here.IsIn t → pos ≤ here.offset → refuses here.offset = false → matchAt here = none

/-- The match with the least start, at or behind an offset, that is not refused. -/
structure IsFirst (t : Text) (matchAt : Cursor → Option (Match σ)) (refuses : Nat → Bool)
    (pos : Nat) (m : Match σ) : Prop where
  isIn : m.first.IsIn t
  matched : matchAt m.first = some m
  le : pos ≤ m.start
  accepted : refuses m.start = false
  least : ∀ here, here.IsIn t → pos ≤ here.offset → here.offset < m.start →
    refuses here.offset = false → matchAt here = none

namespace IsFirst

theorem unique (hm : IsFirst t matchAt refuses pos m)
    (hn : IsFirst t matchAt refuses pos n) : m = n := by
  rcases Nat.lt_trichotomy m.start n.start with less | same | more
  · have := hn.least m.first hm.isIn hm.le less hm.accepted
    exact absurd (hm.matched.symm.trans this) (by simp)
  · have place : m.first = n.first := hm.isIn.ext hn.isIn same
    exact Option.some.inj (hm.matched.symm.trans (place ▸ hn.matched))
  · have := hm.least n.first hn.isIn hn.le more hn.accepted
    exact absurd (hn.matched.symm.trans this) (by simp)

theorem not_noneFrom (h : IsFirst t matchAt refuses pos m) :
    ¬NoneFrom t matchAt refuses pos := fun none => by
  have := none m.first h.isIn h.le h.accepted
  exact absurd (h.matched.symm.trans this) (by simp)

end IsFirst

/-- Offsets with the same matches at or behind them. -/
def SameFrom (t : Text) (matchAt : Cursor → Option (Match σ)) (refuses : Nat → Bool)
    (pos next : Nat) : Prop :=
  ∀ here, here.IsIn t → refuses here.offset = false → matchAt here ≠ none →
    (pos ≤ here.offset ↔ next ≤ here.offset)

namespace SameFrom

theorem noneFrom (h : SameFrom t matchAt refuses pos next) (none : NoneFrom t matchAt refuses pos) :
    NoneFrom t matchAt refuses next := fun here hi hn ha => by
  by_contra hm
  exact hm (none here hi ((h here hi ha hm).mpr hn) ha)

theorem isFirst (h : SameFrom t matchAt refuses pos next)
    (first : IsFirst t matchAt refuses pos m) :
    IsFirst t matchAt refuses next m where
  isIn := first.isIn
  matched := first.matched
  le := (h m.first first.isIn first.accepted (by simp [first.matched])).mp first.le
  accepted := first.accepted
  least here hi hn hs ha := by
    by_contra hm
    exact hm (first.least here hi ((h here hi ha hm).mpr hn) hs ha)

end SameFrom

/-- Where a search goes on behind a match: at its end, or at the next character behind a match of no
characters. -/
def behind (t : Text) (m : Match σ) : Nat :=
  if m.start < m.stop then m.stop else nextBoundary t m.stop

theorem stop_le_behind (t : Text) (m : Match σ) : m.stop ≤ behind t m := by
  have := lt_nextBoundary t m.stop
  rw [behind]
  split <;> omega

theorem start_lt_behind (t : Text) (h : m.start ≤ m.stop) : m.start < behind t m := by
  have := lt_nextBoundary t m.stop
  rw [behind]
  split <;> omega

theorem isBoundary_behind (h : IsBoundary t m.stop) :
    IsBoundary t (behind t m) ∨ byteLength t < behind t m := by
  rw [behind]
  split
  · exact .inl h
  · exact isBoundary_nextBoundary t m.stop

/-! ### Searches -/

/-- A search in a text: a match is told by the place at which it starts, with the text on both
sides, and ends at a place that is not in front of it; and from a boundary the match with the least
start is found. -/
structure Search (σ : Type) (t : Text) where
  matchAt : Cursor → Option (Match σ)
  find : Nat → Option (Match σ)
  first_eq : ∀ {here m}, matchAt here = some m → m.first = here
  last_isIn : ∀ {here m}, here.IsIn t → matchAt here = some m → m.ending.last.IsIn t
  start_le_stop : ∀ {here m}, here.IsIn t → matchAt here = some m → m.start ≤ m.stop
  isFirst_of_find : ∀ {pos m}, IsBoundary t pos → find pos = some m →
    IsFirst t matchAt (fun _ => false) pos m
  noneFrom_of_find : ∀ {pos}, IsBoundary t pos → find pos = none →
    NoneFrom t matchAt (fun _ => false) pos

namespace Search

variable {s : Search σ t}

theorem start_le (h : IsFirst t s.matchAt refuses pos m) : m.start ≤ m.stop :=
  s.start_le_stop h.isIn h.matched

/-- What is found from an offset, if that is a boundary. -/
def seek? (s : Search σ t) (pos : Nat) : Option (Option (Match σ)) :=
  if IsBoundary t pos then some (s.find pos) else none

theorem isFirst_of_seek? (h : s.seek? pos = some (some m)) :
    IsFirst t s.matchAt (fun _ => false) pos m := by
  rw [seek?] at h
  split at h
  · exact s.isFirst_of_find ‹_› (Option.some.inj h)
  · exact absurd h (by simp)

/-- The matches that are taken from an offset on, where a match that starts inside of an attribute
is passed over. It fails where a search would begin elsewhere than at a boundary, or a text would be
cut there. -/
def membersFrom? (s : Search σ t) (pos : Nat) : Option (List (Match σ)) :=
  if pos ≤ byteLength t then
    match _found : s.seek? pos with
    | none => none
    | some none => some []
    | some (some m) =>
      match insideAttribute? t m.start with
      | none => none
      | some true => membersFrom? s (nextBoundary t m.start)
      | some false => (membersFrom? s (behind t m)).map (m :: ·)
  else some []
termination_by byteLength t + 1 - pos
decreasing_by
  · have le := (isFirst_of_seek? _found).le
    have := lt_nextBoundary t m.start
    omega
  · have first := isFirst_of_seek? _found
    have le := first.le
    have := start_lt_behind t (start_le first)
    omega

def members? (s : Search σ t) : Option (List (Match σ)) := s.membersFrom? 0

theorem membersFrom?_of_lt (h : byteLength t < pos) : s.membersFrom? pos = some [] := by
  rw [membersFrom?, if_neg (by omega)]

/-- One step of the search from a boundary. -/
theorem membersFrom?_of_isBoundary (h : IsBoundary t pos) : s.membersFrom? pos =
    (s.find pos).elim (some []) fun m =>
      if insideAttribute t m.start then s.membersFrom? (nextBoundary t m.start)
      else (s.membersFrom? (behind t m)).map (m :: ·) := by
  have seek : s.seek? pos = some (s.find pos) := if_pos h
  rw [membersFrom?, if_pos h.le]
  split
  · next failed => exact absurd (seek.symm.trans failed) (by simp)
  · next found =>
    rw [Option.some.inj (seek.symm.trans found)]
    rfl
  · next m found =>
    rw [Option.some.inj (seek.symm.trans found), Option.elim_some, insideAttribute?_eq]
    cases insideAttribute t m.start <;> rfl

/-! ### The greedy choice -/

/-- The matches of a text from an offset on, taken from left to right: each is the one with the
least start that is not refused, at or behind the end of the one in front of it. -/
inductive Greedy (s : Search σ t) (refuses : Nat → Bool) : Nat → List (Match σ) → Prop
  | done {pos : Nat} (none : NoneFrom t s.matchAt refuses pos) : Greedy s refuses pos []
  | take {pos : Nat} {m : Match σ} {ms : List (Match σ)} (first : IsFirst t s.matchAt refuses pos m)
    (rest : Greedy s refuses (behind t m) ms) : Greedy s refuses pos (m :: ms)

/-- An iteration over all matches of a text: each is the first one at or behind the end of the one
in front of it; behind a match of no characters it may go on anywhere. -/
inductive Iterates (s : Search σ t) : Nat → List (Match σ) → Prop
  | done {pos : Nat} (none : NoneFrom t s.matchAt (fun _ => false) pos) : Iterates s pos []
  | take {pos next : Nat} {m : Match σ} {ms : List (Match σ)}
      (first : IsFirst t s.matchAt (fun _ => false) pos m)
    (onward : m.start < m.stop → next = m.stop) (rest : Iterates s next ms) :
    Iterates s pos (m :: ms)

namespace Greedy

theorem unique (h : s.Greedy refuses pos ms) (h' : s.Greedy refuses pos ns) : ms = ns := by
  induction h generalizing ns with
  | done none =>
    cases h' with
    | done => rfl
    | take first _ => exact absurd none first.not_noneFrom
  | take first _ ih =>
    cases h' with
    | done none => exact absurd none first.not_noneFrom
    | take other rest =>
      obtain rfl := first.unique other
      rw [ih rest]

theorem shift (h : s.Greedy refuses pos ms) (same : SameFrom t s.matchAt refuses pos next) :
    s.Greedy refuses next ms := by
  cases h with
  | done none => exact .done (same.noneFrom none)
  | take first rest => exact .take (same.isFirst first) rest

theorem isFirst_of_mem (h : s.Greedy refuses pos ms) (hm : m ∈ ms) :
    ∃ bound, pos ≤ bound ∧ IsFirst t s.matchAt refuses bound m := by
  induction h with
  | done => exact absurd hm List.not_mem_nil
  | @take pos n ms first _ ih =>
    rcases List.mem_cons.mp hm with rfl | hm
    · exact ⟨pos, Nat.le_refl _, first⟩
    · obtain ⟨bound, le, found⟩ := ih hm
      have := first.le
      have := start_lt_behind t (start_le first)
      exact ⟨bound, by omega, found⟩

/-- A chosen match ends in front of the next one. -/
theorem pairwise (h : s.Greedy refuses pos ms) :
    ms.Pairwise fun m n => m.start < n.start ∧ m.stop ≤ n.start := by
  induction h with
  | done => exact .nil
  | @take pos m ms first rest ih =>
    refine .cons (fun n hn => ?_) ih
    obtain ⟨bound, le, found⟩ := rest.isFirst_of_mem hn
    have := found.le
    have := start_lt_behind t (start_le first)
    have := stop_le_behind t m
    omega

end Greedy

/-- Where nothing is refused that an iteration takes, and no match is of no characters, the choice
is the iteration. -/
theorem Iterates.greedy (h : s.Iterates pos ms) (accepted : ∀ m ∈ ms, refuses m.start = false)
    (solid : ∀ m ∈ ms, m.start < m.stop) : s.Greedy refuses pos ms := by
  induction h with
  | done none => exact .done fun here hi hn _ => none here hi hn rfl
  | @take pos next m ms first onward _ ih =>
    obtain ⟨ha, accepted⟩ := List.forall_mem_cons.mp accepted
    obtain ⟨hs, solid⟩ := List.forall_mem_cons.mp solid
    have resumed : behind t m = next := (if_pos hs).trans (onward hs).symm
    refine .take ⟨first.isIn, first.matched, first.le, ha, fun here hi hn hl _ =>
      first.least here hi hn hl rfl⟩ ?_
    rw [resumed]
    exact ih accepted solid

theorem Greedy.iterates (h : s.Greedy (fun _ => false) pos ms) : s.Iterates pos ms := by
  induction h with
  | done none => exact .done none
  | take first _ ih => exact .take first (fun solid => if_pos solid) ih

/-- Behind a match that is passed over, the choice is the one from the next character on. -/
theorem sameFrom_nextBoundary (first : IsFirst t s.matchAt (fun _ => false) pos m)
    (refused : refuses m.start = true) :
    SameFrom t s.matchAt refuses (nextBoundary t m.start) pos := fun here hi ha hm => by
  rw [nextBoundary_le_iff hi.isBoundary]
  have le := first.le
  refine ⟨fun hn => by omega, fun hn => ?_⟩
  rcases Nat.lt_trichotomy here.offset m.start with less | same | more
  · exact absurd (first.least here hi hn less rfl) hm
  · rw [same, refused] at ha
    exact absurd ha (by simp)
  · exact more

/-- From every boundary, and from behind the end, the search comes to an end with the greedy choice.
-/
theorem exists_membersFrom? (h : IsBoundary t pos ∨ byteLength t < pos) :
    ∃ ms, s.membersFrom? pos = some ms ∧ s.Greedy (insideAttribute t) pos ms := by
  induction hn : byteLength t + 1 - pos using Nat.strongRecOn generalizing pos with
  | ind left ih =>
    subst hn
    rcases h with h | h
    · rw [membersFrom?_of_isBoundary h]
      have bound := h.le
      cases hf : s.find pos with
      | none =>
        have none := s.noneFrom_of_find h hf
        exact ⟨[], rfl, .done fun here hi hn _ => none here hi hn rfl⟩
      | some m =>
        have first := s.isFirst_of_find h hf
        have le := first.le
        rw [Option.elim_some]
        by_cases inside : insideAttribute t m.start = true
        · have onward := lt_nextBoundary t m.start
          obtain ⟨ms, found, greedy⟩ := ih _ (by omega) (isBoundary_nextBoundary t m.start) rfl
          rw [if_pos inside]
          exact ⟨ms, found, greedy.shift (sameFrom_nextBoundary first inside)⟩
        · have onward := start_lt_behind t (start_le first)
          have stop := (s.last_isIn first.isIn first.matched).isBoundary
          obtain ⟨ms, found, greedy⟩ := ih _ (by omega) (isBoundary_behind stop) rfl
          rw [if_neg inside, found]
          exact ⟨m :: ms, rfl, .take ⟨first.isIn, first.matched, le, by simpa using inside,
            fun here hi hn hl _ => first.least here hi hn hl rfl⟩ greedy⟩
    · exact ⟨[], membersFrom?_of_lt h, .done fun here hi hn _ => by have := hi.isBoundary.le; omega⟩

end Search

/-! ### Searches with patterns -/

/-- A search by candidates goes on where the search by offsets does. -/
theorem resumeAfter_le_iff {offset : Nat} (h : IsBoundary t offset) :
    resumeAfter m ≤ offset ↔ behind t m ≤ offset := by
  rw [resumeAfter, behind]
  split
  · exact Iff.rfl
  · rw [nextBoundary_le_iff h, Nat.succ_le_iff]

/-- What is selected of all candidates in text order is the greedy choice. -/
theorem Search.greedy_select {s : Search σ t} {refusesAt : Cursor → Bool}
    (told : ∀ here, here.IsIn t → refusesAt here = refuses here.offset)
    (placed : ∀ m ∈ ms, m.first.IsIn t ∧ s.matchAt m.first = some m)
    (complete : ∀ here m, here.IsIn t → pos ≤ here.offset → refuses here.offset = false →
    s.matchAt here = some m → m ∈ ms)
    (sorted : ms.Pairwise (·.start < ·.start)) : s.Greedy refuses pos
    (select refusesAt pos ms) := by
  induction ms generalizing pos with
  | nil =>
    refine .done fun here hi hn ha => ?_
    by_contra hm
    obtain ⟨m, hm⟩ := Option.ne_none_iff_exists'.mp hm
    exact absurd (complete here m hi hn ha hm) List.not_mem_nil
  | cons m ms ih =>
    obtain ⟨⟨isIn, matched⟩, placed⟩ := List.forall_mem_cons.mp placed
    obtain ⟨later, sorted⟩ := List.pairwise_cons.mp sorted
    have start {here : Cursor} {n : Match σ} (hm : s.matchAt here = some n) :
        n.start = here.offset :=
      congrArg Cursor.offset (s.first_eq hm)
    rw [select, told _ isIn]
    split
    · next passed =>
      refine ih placed (fun here n hi hn ha hm => ?_) sorted
      refine (List.mem_cons.mp (complete here n hi hn ha hm)).resolve_left fun same => ?_
      rw [← start hm, same] at hn ha
      have early : ¬m.start < pos := by omega
      have accepted : refuses m.first.offset = false := ha
      simp [early, accepted] at passed
    · next taken =>
      have le : pos ≤ m.start := by
        by_contra early
        exact taken (by simp [Nat.not_le.mp early])
      have accepted : refuses m.start = false := by
        by_contra refused
        exact taken (by simpa using .inr (Bool.not_eq_false _ ▸ refused))
      have onward : m.start < resumeAfter m := by
        have := s.start_le_stop isIn matched
        rw [resumeAfter]
        split <;> omega
      refine .take ⟨isIn, matched, le, accepted, fun here hi hn hl ha => ?_⟩ ?_
      · by_contra hm
        obtain ⟨n, hm⟩ := Option.ne_none_iff_exists'.mp hm
        have := start hm
        rcases List.mem_cons.mp (complete here n hi hn ha hm) with rfl | hn
        · omega
        · have := later n hn
          omega
      · have left : ∀ here n, here.IsIn t → resumeAfter m ≤ here.offset →
            refuses here.offset = false → s.matchAt here = some n →
            n ∈ ms := fun here n hi hn ha hm => by
          have := start hm
          refine (List.mem_cons.mp (complete here n hi (by omega) ha hm)).resolve_left fun same =>
            ?_
          rw [same] at this
          omega
        exact (ih placed left sorted).shift fun here hi _ _ => resumeAfter_le_iff hi.isBoundary

variable {p : Pattern σ} {s : Search σ t}

theorem mem_candidates_iff : m ∈ p.candidates t ↔ m.first.IsIn t ∧ p.matchAt m.first = some m := by
  rw [candidates_eq, List.mem_filterMap]
  constructor
  · rintro ⟨here, hi, hm⟩
    rw [first_of_matchAt hm]
    exact ⟨Cursor.mem_places_iff.mp hi, hm⟩
  · rintro ⟨hi, hm⟩
    exact ⟨m.first, Cursor.mem_places_iff.mpr hi, hm⟩

theorem last_isIn_of_matchAt {here : Cursor} (hi : here.IsIn t) (hm : p.matchAt here = some m) :
    m.ending.last.IsIn t := by
  obtain ⟨_, _, leads⟩ := reaches_of_matchAt hm
  exact leads.isIn hi

theorem start_le_stop_of_matchAt {here : Cursor} (hm : p.matchAt here = some m) :
    m.start ≤ m.stop := by
  obtain ⟨_, _, leads⟩ := reaches_of_matchAt hm
  obtain ⟨w, -, last⟩ := leads.exists_beyond
  rw [Match.start, Match.stop, first_of_matchAt hm, last]
  exact Nat.le_add_right ..

/-- A match at a place is a candidate that starts there. -/
theorem mem_candidates_of_matchAt {here : Cursor} (hi : here.IsIn t)
    (hm : p.matchAt here = some m) :
    m ∈ p.candidates t ∧ m.start = here.offset := by
  have first := first_of_matchAt hm
  exact ⟨mem_candidates_iff.mpr (by rw [first]; exact ⟨hi, hm⟩), congrArg Cursor.offset first⟩

/-- The first candidate that starts at or behind an offset. -/
def candidateFrom? (p : Pattern σ) (t : Text) (pos : Nat) : Option (Match σ) :=
  (p.candidates t).find? fun m => decide (pos ≤ m.start)

theorem isFirst_of_candidateFrom? (hf : p.candidateFrom? t pos = some m) :
    IsFirst t p.matchAt (fun _ => false) pos m := by
  obtain ⟨le, front, back, split, early⟩ := List.find?_eq_some_iff_append.mp hf
  have sorted := pairwise_candidates p t
  obtain ⟨isIn, matched⟩ := mem_candidates_iff.mp (List.mem_of_find?_eq_some hf)
  refine ⟨isIn, matched, of_decide_eq_true le, rfl, fun there hi hn hl _ => ?_⟩
  by_contra hm
  obtain ⟨n, hm⟩ := Option.ne_none_iff_exists'.mp hm
  obtain ⟨found, start⟩ := mem_candidates_of_matchAt hi hm
  rw [split] at found sorted
  rcases List.mem_append.mp found with hn' | hn'
  · have := early n hn'
    simp only [Bool.not_eq_true', decide_eq_false_iff_not] at this
    omega
  · rcases List.mem_cons.mp hn' with rfl | hn'
    · omega
    · have := (List.pairwise_cons.mp (List.pairwise_append.mp sorted).2.1).1 n hn'
      omega

theorem noneFrom_of_candidateFrom? (hf : p.candidateFrom? t pos = none) :
    NoneFrom t p.matchAt (fun _ => false) pos := by
  intro here hi hn _
  by_contra hm
  obtain ⟨n, hm⟩ := Option.ne_none_iff_exists'.mp hm
  obtain ⟨found, start⟩ := mem_candidates_of_matchAt hi hm
  have := List.find?_eq_none.mp hf n found
  simp only [decide_eq_true_eq] at this
  omega

/-- The search for the matches of a pattern. -/
def search (p : Pattern σ) (t : Text) : Search σ t where
  matchAt := p.matchAt
  find := p.candidateFrom? t
  first_eq := first_of_matchAt
  last_isIn := last_isIn_of_matchAt
  start_le_stop _ := start_le_stop_of_matchAt
  isFirst_of_find _ := isFirst_of_candidateFrom?
  noneFrom_of_find _ := noneFrom_of_candidateFrom?

theorem greedy_matchesUnless {refusesAt : Cursor → Bool} (same : s.matchAt = p.matchAt)
    (told : ∀ here, here.IsIn t → refusesAt here = refuses here.offset) :
    s.Greedy refuses 0 (p.matchesUnless refusesAt t) := by
  refine Search.greedy_select told (fun m hm => same ▸ mem_candidates_iff.mp hm)
    (fun here m hi _ _ hm => ?_)
    (pairwise_candidates p t)
  rw [mem_candidates_iff, s.first_eq hm, ← same]
  exact ⟨hi, hm⟩

theorem endsInAttribute_of_isIn {here : Cursor} (hi : here.IsIn t) :
    endsInAttribute here.before = insideAttribute t here.offset := by
  rw [insideAttribute, ← hi.before_eq]

/-- What the search takes of a pattern is what is selected of all its candidates. -/
theorem Search.members?_eq (same : s.matchAt = p.matchAt) :
    s.members? = some (p.matchesUnless (fun here => endsInAttribute here.before) t) := by
  obtain ⟨ms, found, greedy⟩ := s.exists_membersFrom? (.inl (isBoundary_zero t))
  rw [(greedy_matchesUnless same fun here => endsInAttribute_of_isIn).unique greedy]
  exact found

/-- The search for members comes to an end and takes, one after the other, the match with the least
start outside of attributes at or behind the place where the one in front of it ends, or at the next
character behind a match of no characters, until there is none. So the matches come in text order,
none goes on into the next one, none starts inside of an attribute, and they are all matches of an
iteration in which no match starts there and none is of no characters. The members that are reported
of a pattern are these. -/
theorem members_greedy (s : Search σ t) :
    ∃ ms, s.members? = some ms ∧ (∀ ns, s.Greedy (insideAttribute t) 0 ns ↔ ns = ms) ∧
      ms.Pairwise (·.start < ·.start) ∧ ms.Pairwise (·.stop ≤ ·.start) ∧
      (∀ m ∈ ms, insideAttribute t m.start = false) ∧
      (∀ ns, s.Iterates 0 ns → (∀ n ∈ ns, insideAttribute t n.start = false ∧ n.start < n.stop) →
        ms = ns) ∧
      ∀ p : Pattern σ, s.matchAt = p.matchAt →
        p.matchesUnless (fun here => endsInAttribute here.before) t = ms ∧
          s.Iterates 0 (p.allMatches t) := by
  obtain ⟨ms, found, greedy⟩ := s.exists_membersFrom? (.inl (isBoundary_zero t))
  refine ⟨ms, found, fun ns => ⟨fun h => h.unique greedy, fun h => h ▸ greedy⟩,
    greedy.pairwise.imp And.left,
    greedy.pairwise.imp And.right, fun m hm => ?_, fun ns all plain => ?_, fun p same => ⟨?_, ?_⟩⟩
  · obtain ⟨_, -, first⟩ := greedy.isFirst_of_mem hm
    exact first.accepted
  · exact greedy.unique (all.greedy (fun n hn => (plain n hn).1) fun n hn => (plain n hn).2)
  · exact Option.some.inj ((Search.members?_eq same).symm.trans found)
  · exact (greedy_matchesUnless same fun _ _ => rfl).iterates

/-- A method is found on the line of its annotation, where the first match begins behind the at
sign. -/
theorem members_greedy_annotated : let t := "@A int f(); int g();".toList
    (Source.Java.methodPattern.matchAt ⟨['@'], 1, t.drop 1⟩).isSome = true ∧
      ∃ ms, (Source.Java.methodPattern.search t).members? = some ms ∧
        ms.map (·.start) = [3, 12] := by
  intro t
  obtain ⟨ms, found, -, -, -, -, -, reported⟩ := members_greedy (Source.Java.methodPattern.search t)
  refine ⟨by decide +kernel, ms, found, ?_⟩
  rw [← (reported _ rfl).1]
  decide +kernel

end SourceSurvey.Pattern
