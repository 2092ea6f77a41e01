import SourceSurvey.Proofs.Within

/-! Searches part by part. A search over a text and what follows it is a search over what follows,
moved by the bytes of the text, if nothing is found in the text or if one match is found that begins
with it and ends in it. A text whose matches are replaced is then put together of the parts
likewise: a match at the front gives way to the filler, and what stands around it stays. -/

namespace SourceSurvey

open Text

theorem Text.takeBytes_add_append (a b : Text) (n : Nat) :
    takeBytes (byteLength a + n) (a ++ b) = a ++ takeBytes n b := by
  induction a with
  | nil => rw [byteLength, Nat.zero_add, List.nil_append, List.nil_append]
  | cons c a ih =>
    have fits : c.utf8Size ≤ byteLength (c :: a) + n :=
      Nat.le_add_right_of_le (Nat.le_add_right _ _)
    have left : byteLength (c :: a) + n - c.utf8Size = byteLength a + n := by rw [byteLength]; omega
    rw [List.cons_append, takeBytes, if_pos fits, left, ih, List.cons_append]

namespace Pattern

variable {σ : Type} {p : Pattern σ} {refuses : Cursor → Bool} {x t r core gap filler : Text}
  {ms : List (Match σ)} {m : Match σ}

/-! ### Searches -/

theorem matchesUnless_eq_nil (h : ∀ here : Cursor, here.IsIn t → p.matchAt here = none) :
    p.matchesUnless refuses t = [] := by
  have none : p.candidates t = [] := by
    rw [candidates_eq, List.filterMap_eq_nil_iff]
    exact fun here hh => h here (Cursor.isIn_of_mem_places hh)
  rw [matchesUnless, none, select]

/-- A match at the start of a text is the first one, and the search goes on behind the text if in
the text nothing is found behind the match. -/
theorem matchesUnless_first (hp : p.looksForLine = false) (hx : ∀ c ∈ x.getLast?, isWord c = false)
    (hm : p.matchAt ((Cursor.ofText x).within [] r) = some m) (hr : refuses m.first = false)
    (hs : 0 < m.stop) (hl : m.stop ≤ byteLength x)
    (hn : ∀ here : Cursor, here.IsIn x → here.rest ≠ [] → m.stop ≤ here.offset →
    p.matchAt (here.within [] r) = none) :
    p.matchesUnless refuses (x ++ r) =
      m :: (p.matchesUnless (fun here => refuses (here.within x [])) r).map (.within x []) := by
  have start : m.start = 0 := by rw [Match.start, first_of_matchAt hm]; rfl
  have resume : resumeAfter m = m.stop := if_pos (start ▸ hs)
  obtain ⟨later, places⟩ : ∃ later, (Cursor.places x).dropLast = Cursor.ofText x :: later := by
    cases x with
    | nil => exact absurd hl (Nat.not_le.mpr hs)
    | cons c x =>
      have some : Cursor.placesFrom ((Cursor.ofText (c :: x)).past c x) x ≠ [] := by
        cases x <;> simp [Cursor.placesFrom]
      exact ⟨_, List.dropLast_cons_of_ne_nil some⟩
  -- the other candidates that begin in the text begin in the match
  have passed : ∀ n ∈ (later.map (Cursor.within [] r)).filterMap p.matchAt, n.start < m.stop ∨
      refuses n.first = true := by
    intro n hn'
    obtain ⟨there, hh, hc⟩ := List.mem_filterMap.mp hn'
    obtain ⟨here, hin, rfl⟩ := List.mem_map.mp hh
    have found : here ∈ (Cursor.places x).dropLast := places ▸ List.mem_cons_of_mem _ hin
    have offset : n.start = here.offset := by
      rw [Match.start, first_of_matchAt hc, Cursor.offset_within, byteLength, Nat.zero_add]
    left
    rw [offset]
    by_contra hge
    rw [hn here (Cursor.isIn_of_mem_places (List.dropLast_subset _ found))
      (Cursor.rest_ne_nil_of_mem_placesFrom rfl found) (Nat.not_lt.mp hge)] at hc
    exact absurd hc (by simp)
  have behind : select refuses (byteLength x) ((p.candidates r).map (.within x [])) = _ :=
    select_within (fun _ => rfl) 0 _
  have open' : ¬(m.start < 0 || refuses m.first) = true := by simp [hr]
  rw [matchesUnless, candidates_append hp hx, places, List.map_cons, List.filterMap_cons_some hm,
    List.cons_append, select, if_neg open', resume, select_append_of_passed passed,
    select_of_le (fun n hn => le_start_of_mem_within hn) hl, behind]
  rfl

/-! ### Replaced texts -/

/-- Matches that are moved are replaced as they were. -/
theorem replaceFrom_within (filler x : Text) (k : Nat) (t : Text) (ms : List (Match σ)) :
    replaceFrom filler (byteLength x + k) t (ms.map (.within x [])) = replaceFrom
      filler k t ms := by
  induction ms generalizing k t with
  | nil => rfl
  | cons m ms ih =>
    have start : (m.within x []).start - (byteLength x + k) = m.start - k :=
      Nat.add_sub_add_left _ _ _
    have later := ih m.stop m.ending.last.rest
    have stop : (m.within x []).stop = byteLength x + m.stop := rfl
    have rest : (m.within x []).ending.last.rest = m.ending.last.rest := List.append_nil _
    rw [List.map_cons, replaceFrom, start, stop, rest, later, replaceFrom]

/-- What stands in front of moved matches stays. -/
theorem replaceFrom_append {n : Nat} (h : n + byteLength gap = byteLength x) (t : Text)
    (ms : List (Match σ)) :
    replaceFrom filler n (gap ++ t) (ms.map (.within x [])) = gap ++ replaceFrom filler 0 t ms := by
  cases ms with
  | nil => rfl
  | cons m ms =>
    have start : (m.within x []).start - n = byteLength gap + m.start := by
      have moved : (m.within x []).start = byteLength x + m.start := rfl
      omega
    have stop : (m.within x []).stop = byteLength x + m.stop := rfl
    have rest : (m.within x []).ending.last.rest = m.ending.last.rest := List.append_nil _
    rw [List.map_cons, replaceFrom, start, stop, rest, replaceFrom_within, takeBytes_add_append,
      replaceFrom, Nat.sub_zero]
    simp

theorem replaceAll_eq_self (h : ∀ here : Cursor, here.IsIn t → p.matchAt here = none) :
    p.replaceAll filler t = t := by
  rw [replaceAll, allMatches, matchesUnless_eq_nil h, replaceFrom]

section Skip

variable (hp : p.looksForLine = false) (hx : ∀ c ∈ x.getLast?, isWord c = false)
  (hn : ∀ here : Cursor, here.IsIn x → here.rest ≠ [] → p.matchAt (here.within [] r) = none)
include hp hx hn

/-- A text in which nothing is found is passed over. -/
theorem allMatches_skip : p.allMatches (x ++ r) = (p.allMatches r).map (.within x []) :=
  matchesUnless_skip hp hx fun here hh hr => .inl (hn here hh hr)

theorem replaceAll_skip : p.replaceAll filler (x ++ r) = x ++ p.replaceAll filler r := by
  rw [replaceAll, allMatches_skip hp hx hn, replaceFrom_append (Nat.zero_add _), replaceAll]

end Skip

section First

variable (hp : p.looksForLine = false) (hx : ∀ c ∈ (core ++ gap).getLast?, isWord c = false)
  (hc : core ≠ []) (h : p.Prefers (Cursor.ofText (core ++ (gap ++ r)))
  ((Cursor.ofText (core ++ (gap ++ r))).beyond core (gap ++ r)))
  (hn : ∀ here : Cursor, here.IsIn (core ++ gap) → here.rest ≠ [] → here.rest <:+ gap →
  p.matchAt (here.within [] r) = none)
include hp hx hc h hn

/-- What the pattern prefers to read at the start of a text is the first match, and the search goes
on behind it. -/
theorem allMatches_first :
    ∃ m, p.allMatches (core ++ (gap ++ r)) = m :: (p.allMatches r).map (.within (core ++ gap) []) ∧
    m.first = Cursor.ofText (core ++ (gap ++ r)) ∧
      m.ending.last = m.first.beyond core (gap ++ r) := by
  let m : Match σ :=
    ⟨Cursor.ofText (core ++ (gap ++ r)),
      .plain ((Cursor.ofText (core ++ (gap ++ r))).beyond core (gap ++ r))⟩
  have place : (Cursor.ofText (core ++ gap)).within [] r = Cursor.ofText (core ++ (gap ++ r)) := by
    simp [Cursor.within, Cursor.ofText, byteLength]
  have found : p.matchAt ((Cursor.ofText (core ++ gap)).within [] r) = some m := by
    rw [place, matchAt, h _ _ rfl]
    rfl
  have stop : m.stop = byteLength core := Nat.zero_add _
  obtain ⟨c, u, rfl⟩ := List.exists_cons_of_ne_nil hc
  have bytes := c.utf8Size_pos
  refine ⟨m, ?_, rfl, rfl⟩
  rw [← List.append_assoc, allMatches,
    matchesUnless_first hp hx found rfl (by rw [stop, byteLength]; omega)
    (by rw [stop, byteLength_append]; exact Nat.le_add_right _ _) fun here hh hr hs =>
      hn here hh hr ?_]
  · rfl
  · have behind : ((Cursor.ofText (c :: u ++ gap)).beyond (c :: u) gap).IsIn (c :: u ++ gap) :=
      (Cursor.isIn_ofText _).beyond rfl
    refine behind.rest_suffix hh (Nat.le_trans ?_ hs)
    rw [stop]
    exact Nat.le_of_eq (Nat.zero_add _)

theorem replaceAll_first :
    p.replaceAll filler (core ++ (gap ++ r)) = filler ++ (gap ++ p.replaceAll filler r) := by
  obtain ⟨m, found, first, last⟩ := allMatches_first hp hx hc h hn
  have start : m.start = 0 := by rw [Match.start, first]; rfl
  have stop : m.stop = byteLength core := by rw [Match.stop, last, first]; exact Nat.zero_add _
  have rest : m.ending.last.rest = gap ++ r := by rw [last]; rfl
  have front : ∀ t, takeBytes 0 t = [] := fun t => takeBytes_append [] t
  rw [replaceAll, found, replaceFrom, start, Nat.sub_self, front, rest, stop,
    replaceFrom_append (by rw [byteLength_append]), replaceAll, List.nil_append]

end First

end Pattern

end SourceSurvey
