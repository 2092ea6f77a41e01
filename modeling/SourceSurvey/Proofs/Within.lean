import SourceSurvey.Proofs.Reads
import SourceSurvey.Proofs.Matches

/-! A text between two others. Where the text in front of it ends in no word, a pattern reads within
the three what it reads in the text alone, at places that are moved by the bytes in front, as long
as it does not come to the end of the text. So the matches of a text that is put together of two
parts are those of the one and those of the other, if no reading that begins in the first part goes
on into the second. -/

namespace SourceSurvey

open Text

namespace Cursor

variable {front back t : Text} {here : Cursor}

/-- The place with further text on its two sides. -/
def within (front back : Text) (here : Cursor) : Cursor :=
  ⟨here.before ++ front.reverse, byteLength front + here.offset, here.rest ++ back⟩

@[simp] theorem rest_within : (here.within front back).rest = here.rest ++ back := rfl

@[simp] theorem before_within : (here.within front back).before = here.before ++ front.reverse :=
  rfl

@[simp] theorem offset_within : (here.within front back).offset = byteLength front + here.offset :=
  rfl

theorem past_within (c : Char) (rest : Text) :
    (here.within front back).past c (rest ++ back) = (here.past c rest).within front back := by
  simp [within, past, Nat.add_assoc]

theorem atWordEdge_within (hf : ∀ c ∈ front.getLast?, isWord c = false)
    (hb : back = [] ∨ here.rest ≠ []) :
    (here.within front back).atWordEdge = here.atWordEdge := by
  have front : (here.before ++ front.reverse).head?.any isWord = here.before.head?.any isWord := by
    cases here.before with
    | nil =>
      rw [List.nil_append, List.head?_reverse]
      cases hl : front.getLast? with
      | none => rfl
      | some c => simpa using hf c hl
    | cons c before => rfl
  have back : (here.rest ++ back).head?.any isWord = here.rest.head?.any isWord := by
    rcases hb with rfl | hr
    · rw [List.append_nil]
    · obtain ⟨c, rest, hr⟩ := List.exists_cons_of_ne_nil hr
      rw [hr]
      rfl
  rw [atWordEdge, atWordEdge, before_within, rest_within, front, back]

theorem placesFrom_within (rest : Text) :
    placesFrom (here.within front []) rest = (placesFrom here rest).map (within front []) := by
  induction rest generalizing here with
  | nil => rfl
  | cons c rest ih =>
    have next : (here.within front []).past c rest = (here.past c rest).within front [] := by
      rw [← past_within, List.append_nil]
    rw [placesFrom, placesFrom, List.map_cons, next, ih]

theorem placesFrom_append (hr : here.rest = t) (r : Text) : placesFrom (here.within [] r) (t ++ r) =
    (placesFrom here t).dropLast.map (within [] r) ++ placesFrom (here.beyond t r) r := by
  induction t generalizing here with
  | nil =>
    have last : here.within [] r = here.beyond [] r := by simp [within, beyond, hr, byteLength]
    rw [List.nil_append, placesFrom, List.dropLast_singleton, List.map_nil, List.nil_append, last]
  | cons c t ih =>
    have next : (here.within [] r).past c (t ++ r) = (here.past c t).within [] r := past_within c t
    have some : placesFrom (here.past c t) t ≠ [] := by cases t <;> simp [placesFrom]
    have behind : (here.past c t).beyond t r = here.beyond (c :: t) r := by
      rw [past_eq_beyond, beyond_beyond, List.singleton_append]
    rw [List.cons_append, placesFrom, next, ih rfl, behind, placesFrom,
      List.dropLast_cons_of_ne_nil some, List.map_cons, List.cons_append]

/-- The places of two texts put together, where the end of the first is the beginning of the second.
-/
theorem places_append (t r : Text) :
    places (t ++ r) = (places t).dropLast.map (within [] r) ++ (places r).map (within t []) := by
  have first : ofText (t ++ r) = (ofText t).within [] r := by simp [ofText, within, byteLength]
  have second : (ofText t).beyond (ofText t).rest r = (ofText r).within t [] := by
    simp [ofText, within, beyond]
  have joined : placesFrom ((ofText t).within [] r) (t ++ r) = _ := placesFrom_append rfl r
  rw [places, first, joined, second, placesFrom_within]
  rfl

theorem within_nil (here : Cursor) : here.within [] [] = here := by simp [within, byteLength]

/-- The last place of a text is its end. -/
theorem places_eq (t : Text) : places t = (places t).dropLast ++ [(ofText t).beyond t []] := by
  have joined : placesFrom ((ofText t).within [] []) (t ++ []) = _ := placesFrom_append rfl []
  rw [within_nil, List.append_nil, funext within_nil, List.map_id'] at joined
  exact joined

/-- Behind the later one of two places of a text stands an end of what stands behind the earlier
one. -/
theorem IsIn.rest_suffix {a b : Cursor} (ha : a.IsIn t) (hb : b.IsIn t) (h : a.offset ≤ b.offset) :
    b.rest <:+ a.rest := by
  rcases List.append_eq_append_iff.mp (ha.1.trans hb.1.symm) with ⟨z, -, hz⟩ | ⟨z, hz, hrest⟩
  · exact ⟨z, hz.symm⟩
  · have bytes : byteLength z = 0 := by
      have := congrArg byteLength hz
      rw [byteLength_append, ← ha.2, ← hb.2] at this
      omega
    cases z with
    | nil => exact ⟨[], hrest⟩
    | cons c z =>
      have := c.utf8Size_pos
      rw [byteLength] at bytes
      omega

theorem rest_ne_nil_of_mem_placesFrom {there : Cursor} (hr : here.rest = t)
    (h : there ∈ (placesFrom here t).dropLast) :
    there.rest ≠ [] := by
  induction t generalizing here with
  | nil => exact absurd h List.not_mem_nil
  | cons c t ih =>
    have some : placesFrom (here.past c t) t ≠ [] := by cases t <;> simp [placesFrom]
    rw [placesFrom, List.dropLast_cons_of_ne_nil some, List.mem_cons] at h
    rcases h with rfl | h
    · exact hr ▸ List.cons_ne_nil c t
    · exact ih rfl h

end Cursor

namespace Pattern

variable {σ : Type} {p : Pattern σ} {front back : Text} {N N' : Next σ}

def Ending.within (front back : Text) (e : Ending σ) : Ending σ :=
  ⟨e.last.within front back, e.begins.map fun m => (m.1, m.2.within front back),
    e.ends.map fun m => (m.1, m.2.within front back)⟩

def Match.within (front back : Text) (m : Match σ) : Match σ :=
  ⟨m.first.within front back, m.ending.within front back⟩

/-- Whether a pattern looks for the start of a line. -/
def looksForLine : Pattern σ → Bool
  | seq p q => p.looksForLine || q.looksForLine
  | alt p q => p.looksForLine || q.looksForLine
  | star p => p.looksForLine
  | lazyStar p => p.looksForLine
  | mark _ p => p.looksForLine
  | lineStart => true
  | _ => false

/-! ### Readings within a text -/

/-- What leads to no ending from the end of the text between the others, nor from behind it; where
nothing stands behind the text there is no need for that. -/
def Stops (back : Text) (N N' : Next σ) : Prop :=
  back = [] ∨ (∀ here, here.rest = [] → N here = none) ∧
    ∀ here, here.rest.length ≤ back.length → N' here = none

theorem Stops.run (h : Stops back N N') (p : Pattern σ) : Stops back (p.run · N) (p.run · N') := by
  refine h.imp_right fun ⟨hN, hN'⟩ => ⟨fun here hr => ?_, fun here hl => ?_⟩
  · refine run_eq_none fun there e e' hl => hN there ?_
    obtain ⟨w, hw, -⟩ := hl.exists_beyond
    exact (List.append_eq_nil_iff.mp (hw.symm.trans hr)).2
  · refine run_eq_none fun there e e' hlead => hN' there ?_
    obtain ⟨w, hw, -⟩ := hlead.exists_beyond
    have := congrArg List.length hw
    rw [List.length_append] at this
    omega

/-- What leads within the three texts to the ending to which it leads in the one between the others.
-/
structure Moves (front back : Text) (N N' : Next σ) : Prop where
  moved : ∀ here, N' (here.within front back) = (N here).map (.within front back)
  stops : Stops back N N'

/-- Behind a round that read something it is enough that the rounds from later places answer each
other. -/
theorem Stops.moves_shorter (h : Stops back N N') {here : Cursor}
    (hM : ∀ there : Cursor, there.rest.length < here.rest.length →
      N' (there.within front back) = (N there).map (.within front back)) :
    Moves front back (fun there => if there.rest.length < here.rest.length then N there else none)
      fun there => if there.rest.length < (here.within front back).rest.length then N' there
        else none where
  moved there := by
    simp only [Cursor.rest_within, List.length_append, Nat.add_lt_add_iff_right]
    split
    · exact hM there ‹_›
    · rfl
  stops := h.imp_right fun ⟨hN, hN'⟩ =>
    ⟨fun there hr => by simp [hN there hr], fun there hl => by simp [hN' there hl]⟩

/-- What is read within the three texts is what is read in the one between the others, moved. -/
theorem Moves.run (hf : ∀ c ∈ front.getLast?, isWord c = false) (hp : p.looksForLine = false)
    (h : Moves front back N N') : Moves front back (p.run · N) (p.run · N') := by
  refine ⟨fun here => ?_, h.stops.run p⟩
  induction p generalizing here N N' with
  | nothing => exact h.moved here
  | one accepts =>
    cases hr : here.rest with
    | cons c rest =>
      rw [run_one_cons (by rw [Cursor.rest_within, hr]; rfl : _ = c :: (rest ++ back)),
        run_one_cons hr, Cursor.past_within, h.moved]
      split <;> rfl
    | nil =>
      rw [run_one_nil hr, Option.map_none]
      rcases h.stops with rfl | ⟨-, hN'⟩
      · exact run_one_nil (by rw [Cursor.rest_within, hr]; rfl)
      · -- a character read here would be the first one behind the text
        refine run_eq_none fun there e e' hl => hN' there ?_
        obtain ⟨c, -, hc, -⟩ := leads_one hl
        rw [Cursor.rest_within, hr, List.nil_append] at hc
        rw [hc, List.length_cons]
        exact Nat.le_succ _
  | seq p q ihp ihq =>
    simp only [looksForLine, Bool.or_eq_false_iff] at hp
    exact ihp hp.1 ⟨ihq hp.2 h, h.stops.run q⟩ here
  | alt p q ihp ihq =>
    simp only [looksForLine, Bool.or_eq_false_iff] at hp
    rw [Pattern.run, Pattern.run, ihp hp.1 h, ihq hp.2 h, Option.map_or]
  | star p ih =>
    have stops := h.stops.run (star p)
    simp only [Pattern.run] at stops ⊢
    induction hn : here.rest.length using Nat.strongRecOn generalizing here with
    | ind n ihn =>
      subst hn
      rw [rounds_eq, rounds_eq, h.moved,
        ih hp (stops.moves_shorter fun there hl => ihn _ hl there rfl), Option.map_or]
  | lazyStar p ih =>
    have stops := h.stops.run (lazyStar p)
    simp only [Pattern.run] at stops ⊢
    induction hn : here.rest.length using Nat.strongRecOn generalizing here with
    | ind n ihn =>
      subst hn
      rw [lazyRounds_eq, lazyRounds_eq, h.moved,
        ih hp (stops.moves_shorter fun there hl => ihn _ hl there rfl), Option.map_or]
  | mark name p ih =>
    have ended : Moves front back (fun there => (N there).map (Ending.markEnd name there))
        (fun there => (N' there).map (.markEnd name there)) := by
      refine ⟨fun there => ?_, ?_⟩
      · rw [h.moved, Option.map_map, Option.map_map]
        rfl
      · refine h.stops.imp_right ?_
        rintro ⟨hN, hN'⟩
        exact ⟨fun there hr => by simp [hN there hr], fun there hl => by simp [hN' there hl]⟩
    have inner := ih hp ended here
    rw [Pattern.run, Pattern.run, inner, Option.map_map, Option.map_map]
    rfl
  | wordEdge =>
    simp only [Pattern.run]
    rcases h.stops with hb | ⟨hN, hN'⟩
    · rw [Cursor.atWordEdge_within hf (.inl hb), h.moved]
      split <;> rfl
    · by_cases hr : here.rest = []
      · rw [hN here hr, hN' _ (by rw [Cursor.rest_within, hr]; exact Nat.le_refl _),
          ite_self, ite_self]
        rfl
      · rw [Cursor.atWordEdge_within hf (.inr hr), h.moved]
        split <;> rfl
  | lineStart => exact absurd hp (by simp [looksForLine])

/-! ### Matches within a text -/

/-- A pattern that reads something wherever it reads, and never reads a whole end of a text. -/
def Stays (p : Pattern σ) (x : Text) : Prop :=
  ∀ w, p.Reads w → w ≠ [] ∧ ∀ a, a <:+ x → a ≠ [] → ¬a <+: w

section Matches

variable {x r : Text} {here : Cursor} {refuses refuses' : Cursor → Bool} {resume bound : Nat}
  {ms ns : List (Match σ)}

theorem matchAt_behind_text (hf : ∀ c ∈ front.getLast?, isWord c = false)
    (hp : p.looksForLine = false) (here : Cursor) :
    p.matchAt (here.within front []) = (p.matchAt here).map (.within front []) := by
  have moves : Moves front [] (stopHere : Next σ) stopHere := ⟨fun _ => rfl, .inl rfl⟩
  have moved :
      p.run (here.within front []) stopHere = (p.run here stopHere).map (.within front []) :=
    (moves.run hf hp).moved here
  have start : ∀ here, p.matchAt here = (p.run here stopHere).map (Match.mk here) := fun _ => rfl
  rw [start, start, moved, Option.map_map, Option.map_map]
  rfl

/-- What a pattern that stays in a text matches there does not depend on what follows the text. -/
theorem Stays.matchAt (hs : Stays p x) (hp : p.looksForLine = false) (hx : here.rest <:+ x)
    (hn : here.rest ≠ []) :
    p.matchAt (here.within [] r) = (p.matchAt here).map (.within [] r) := by
  let N : Next σ := fun there => if there.rest = [] then none else stopHere there
  let N' : Next σ := fun there => if there.rest.length ≤ r.length then none else stopHere there
  have moves : Moves [] r N N' := by
    refine ⟨fun there => ?_, .inr ⟨fun there hr => if_pos hr, fun there hl => if_pos hl⟩⟩
    have ends : (there.rest ++ r).length ≤ r.length ↔ there.rest = [] := by
      rw [List.length_append, ← List.length_eq_zero_iff]
      omega
    simp only [N, N', Cursor.rest_within, ends]
    split <;> rfl
  have inner : p.run here stopHere = p.run here N := run_congr_of_reaches fun there ht => by
    obtain ⟨w, hw, hr⟩ := ht.exists_reads
    refine (if_neg fun he => (hs w hw).2 here.rest hx hn ?_).symm
    exact ⟨[], by rw [hr, he, List.append_nil, List.append_nil]⟩
  have outer : p.run (here.within [] r) stopHere = p.run (here.within [] r) N' :=
      run_congr_of_reaches fun there ht => by
    obtain ⟨w, hw, hr⟩ := ht.exists_reads
    refine (if_neg fun hl => (hs w hw).2 here.rest hx hn ?_).symm
    have length := congrArg List.length hr
    rw [Cursor.rest_within] at hr length
    rw [List.length_append, List.length_append] at length
    exact List.prefix_of_prefix_length_le (List.prefix_append here.rest r) ⟨_, hr.symm⟩ (by omega)
  have moved : p.run (here.within [] r) stopHere = (p.run here stopHere).map (.within [] r) := by
    rw [inner, outer]
    exact (moves.run (by simp) hp).moved here
  have start : ∀ here, p.matchAt here = (p.run here stopHere).map (Match.mk here) := fun _ => rfl
  rw [start, start, moved, Option.map_map, Option.map_map]
  rfl

/-- At the end of a text there is nothing to read. -/
theorem Stays.matchAt_end (hs : Stays p x) (hr : here.rest = []) : p.matchAt here = none := by
  refine Option.map_eq_none_iff.mpr (run_eq_none fun there e e' hl => ?_)
  obtain ⟨w, hw, hw'⟩ := Reaches.exists_reads ⟨e, e', hl⟩
  exact absurd (List.append_eq_nil_iff.mp (hw'.symm.trans hr)).1 (hs w hw).1

/-- The candidates of two texts put together: those that begin in the first, then those of the
second. -/
theorem candidates_append (hp : p.looksForLine = false)
    (hx : ∀ c ∈ x.getLast?, isWord c = false) (r : Text) :
    p.candidates (x ++ r) =
      ((Cursor.places x).dropLast.map (Cursor.within [] r)).filterMap p.matchAt ++
        (p.candidates r).map (.within x []) := by
  have behind : ((Cursor.places r).map (Cursor.within x [])).filterMap p.matchAt =
      ((Cursor.places r).filterMap p.matchAt).map (.within x []) := by
    rw [List.filterMap_map, List.map_filterMap]
    exact List.filterMap_congr fun here _ => matchAt_behind_text hx hp here
  rw [candidates_eq, candidates_eq, Cursor.places_append, List.filterMap_append, behind]

/-- The candidates that begin in a text in which the pattern stays are the candidates of the text.
-/
theorem Stays.candidates_eq (hs : Stays p x) (hp : p.looksForLine = false) (r : Text) :
    ((Cursor.places x).dropLast.map (Cursor.within [] r)).filterMap p.matchAt = (p.candidates x).map
      (.within [] r) := by
  have last : [(Cursor.ofText x).beyond x []].filterMap p.matchAt = [] :=
    List.filterMap_cons_none (hs.matchAt_end rfl)
  rw [Pattern.candidates_eq, List.filterMap_map, Cursor.places_eq x, List.filterMap_append, last,
    List.append_nil, ← Cursor.places_eq, List.map_filterMap]
  refine List.filterMap_congr fun here hh =>
    hs.matchAt hp ?_ (Cursor.rest_ne_nil_of_mem_placesFrom rfl hh)
  exact ⟨_, (Cursor.isIn_of_mem_places (List.dropLast_subset _ hh)).1⟩

/-- Behind a match the search goes on in the same text. -/
theorem Stays.resumeAfter_le (hs : Stays p x) {m : Match σ} (hm : m ∈ p.candidates x) :
    resumeAfter m ≤ byteLength x := by
  rw [Pattern.candidates_eq] at hm
  obtain ⟨here, hh, hm⟩ := List.mem_filterMap.mp hm
  obtain ⟨e, e', hl⟩ := reaches_of_matchAt hm
  obtain ⟨w, hw, ht⟩ := hl.exists_beyond
  obtain ⟨c, v, rfl⟩ := List.exists_cons_of_ne_nil (hs w ⟨here, _, ⟨e, e', hl⟩, hw⟩).1
  have place := hl.isIn (Cursor.isIn_of_mem_places hh)
  have some := c.utf8Size_pos
  have start : m.start = here.offset := by rw [Match.start, first_of_matchAt hm]
  have stop : m.stop = here.offset + byteLength (c :: v) := congrArg Cursor.offset ht
  have whole : m.stop + byteLength m.ending.last.rest = byteLength x := by
    rw [Match.stop, place.2, ← byteLength_append, place.1]
  rw [byteLength] at stop
  rw [resumeAfter, if_pos (by omega)]
  omega

/-- A search may start anywhere before the first candidate. -/
theorem select_of_le (h : ∀ m ∈ ms, bound ≤ m.start) (hr : resume ≤ bound) :
    select refuses resume ms = select refuses bound ms := by
  induction ms with
  | nil => rfl
  | cons m ms ih =>
    have hm := h m List.mem_cons_self
    have before : ¬m.start < resume ∧ ¬m.start < bound := by omega
    rw [select, select, ih fun n hn => h n (List.mem_cons_of_mem m hn)]
    simp [before]

theorem select_append (hr : resume ≤ bound) (hm : ∀ m ∈ ms, resumeAfter m ≤ bound)
    (hn : ∀ n ∈ ns, bound ≤ n.start) :
    select refuses resume (ms ++ ns) = select refuses resume ms ++ select refuses bound ns := by
  induction ms generalizing resume with
  | nil => exact select_of_le hn hr
  | cons m ms ih =>
    have hms : ∀ n ∈ ms, resumeAfter n ≤ bound := fun n hn => hm n (List.mem_cons_of_mem m hn)
    rw [List.cons_append, select, select, ih hr hms, ih (hm m List.mem_cons_self) hms]
    split <;> rfl

/-- A search passes over candidates that begin too early or are refused. -/
theorem select_append_of_passed (h : ∀ m ∈ ms, m.start < resume ∨ refuses m.first = true) :
    select refuses resume (ms ++ ns) = select refuses resume ns := by
  induction ms with
  | nil => rfl
  | cons m ms ih =>
    have passed : (m.start < resume || refuses m.first) = true := by
      simpa using h m List.mem_cons_self
    rw [List.cons_append, select, if_pos passed, ih fun n hn => h n (List.mem_cons_of_mem m hn)]

theorem resumeAfter_within (m : Match σ) :
    resumeAfter (m.within front back) = byteLength front + resumeAfter m := by
  have start : (m.within front back).start = byteLength front + m.start := rfl
  have stop : (m.within front back).stop = byteLength front + m.stop := rfl
  rw [resumeAfter, resumeAfter, start, stop]
  split <;> split <;> omega

theorem select_within (h : ∀ here, refuses' (here.within front back) = refuses here) (resume : Nat)
    (ms : List (Match σ)) :
    select refuses' (byteLength front + resume) (ms.map (.within front back)) =
      (select refuses resume ms).map (.within front back) := by
  induction ms generalizing resume with
  | nil => rfl
  | cons m ms ih =>
    have start : (m.within front back).start = byteLength front + m.start := rfl
    have refused : refuses' (m.within front back).first = refuses m.first := h m.first
    have early :
        decide (byteLength front + m.start < byteLength front + resume) = decide
          (m.start < resume) := by
      rw [decide_eq_decide]
      omega
    rw [List.map_cons, select, select, start, refused, resumeAfter_within, ih, ih, early]
    split <;> simp

theorem le_start_of_mem_within {m : Match σ} (h : m ∈ ms.map (Match.within front back)) :
    byteLength front ≤ m.start := by
  obtain ⟨m, -, rfl⟩ := List.mem_map.mp h
  exact Nat.le_add_right _ _

/-- A search in two texts put together is one in the first and one in the second, if the pattern
stays in the first. -/
theorem Stays.matchesUnless_append (hs : Stays p x) (hp : p.looksForLine = false)
    (hx : ∀ c ∈ x.getLast?, isWord c = false)
    (hr : ∀ here : Cursor, refuses (here.within [] r) = refuses here) :
    p.matchesUnless refuses (x ++ r) = (p.matchesUnless refuses x).map (.within [] r) ++
      (p.matchesUnless (fun here => refuses (here.within x [])) r).map (.within x []) := by
  have bounded : ∀ m ∈ (p.candidates x).map (Match.within [] r), resumeAfter m ≤ byteLength x := by
    intro m hm
    obtain ⟨n, hn, rfl⟩ := List.mem_map.mp hm
    rw [resumeAfter_within, byteLength, Nat.zero_add]
    exact hs.resumeAfter_le hn
  have first : select refuses 0 ((p.candidates x).map (.within [] r)) = _ := select_within hr 0 _
  have second : select refuses (byteLength x) ((p.candidates r).map (.within x [])) = _ :=
    select_within (fun _ => rfl) 0 _
  rw [matchesUnless, candidates_append hp hx, hs.candidates_eq hp,
    select_append (Nat.zero_le _) bounded fun n hn => le_start_of_mem_within hn, first, second]
  rfl

/-- A search finds nothing that begins in a text at whose places the pattern is refused or does not
match. -/
theorem matchesUnless_skip (hp : p.looksForLine = false) (hx : ∀ c ∈ x.getLast?, isWord c = false)
    (hn : ∀ here : Cursor, here.IsIn x → here.rest ≠ [] →
      p.matchAt (here.within [] r) = none ∨ refuses (here.within [] r) = true) :
    p.matchesUnless refuses (x ++ r) =
      (p.matchesUnless (fun here => refuses (here.within x [])) r).map (.within x []) := by
  have refused : ∀ m ∈ ((Cursor.places x).dropLast.map (Cursor.within [] r)).filterMap p.matchAt,
      refuses m.first = true := by
    intro m hm
    obtain ⟨there, hh, hm⟩ := List.mem_filterMap.mp hm
    obtain ⟨here, hin, rfl⟩ := List.mem_map.mp hh
    have place := Cursor.isIn_of_mem_places (List.dropLast_subset _ hin)
    rw [first_of_matchAt hm]
    refine (hn here place (Cursor.rest_ne_nil_of_mem_placesFrom rfl hin)).resolve_left ?_
    rw [hm]
    exact Option.some_ne_none m
  have second : select refuses (byteLength x) ((p.candidates r).map (.within x [])) = _ :=
    select_within (fun _ => rfl) 0 _
  rw [matchesUnless, candidates_append hp hx, select_append_of_passed fun m hm =>
    .inr (refused m hm),
    select_of_le (fun n hn => le_start_of_mem_within hn) (Nat.zero_le _), second]
  rfl

/-! ### Marked parts -/

theorem takeBytes_append_of_le {n : Nat} {a b : Text} (h : n ≤ byteLength a) :
    takeBytes n (a ++ b) = takeBytes n a := by
  induction a generalizing n with
  | nil =>
    obtain rfl : n = 0 := Nat.le_zero.mp h
    exact takeBytes_append [] b
  | cons c a ih =>
    rw [byteLength] at h
    rw [List.cons_append, takeBytes, takeBytes]
    split
    · rw [ih (by omega)]
    · rfl

/-- The marks of an ending stand at places of a text. -/
def Ending.MarksIn (e : Ending σ) (t : Text) : Prop :=
  (∀ m ∈ e.begins, m.2.IsIn t) ∧ ∀ m ∈ e.ends, m.2.IsIn t

theorem Leads.marksIn {there : Cursor} {e e' : Ending σ} {t : Text} (h : p.Leads here e there e')
    (ht : here.IsIn t) (he : e'.MarksIn t) : e.MarksIn t := by
  induction h with
  | nothing | one | starDone | lazyDone | wordEdge | lineStart => exact he
  | seq h _ ih ih' => exact ih ht (ih' (h.isIn ht) he)
  | left _ ih | right _ ih => exact ih ht he
  | starRound h _ _ ih ih' | lazyRound h _ _ ih ih' => exact ih ht (ih' (h.isIn ht) he)
  | mark h ih =>
    have body := ih ht ⟨he.1, List.forall_mem_cons.mpr ⟨h.isIn ht, he.2⟩⟩
    exact ⟨List.forall_mem_cons.mpr ⟨ht, body.1⟩, body.2⟩

theorem marksIn_of_matchAt {t : Text} {m : Match σ} (hm : p.matchAt here = some m)
    (ht : here.IsIn t) :
    m.ending.MarksIn t := by
  obtain ⟨e, he, rfl⟩ := Option.map_eq_some_iff.mp hm
  obtain ⟨there, e', hn, hl⟩ := exists_leads_of_run he
  refine hl.marksIn ht ?_
  rw [← Option.some.inj hn]
  exact ⟨fun m hm => absurd hm List.not_mem_nil, fun m hm => absurd hm List.not_mem_nil⟩

theorem lookup_within [DecidableEq σ] (marks : List (σ × Cursor)) (name : σ) :
    (marks.map fun m => (m.1, m.2.within front back)).lookup name = (marks.lookup name).map
      (.within front back) := by
  induction marks with
  | nil => rfl
  | cons m marks ih =>
    rw [List.map_cons, List.lookup_cons, List.lookup_cons, ih]
    split <;> rfl

theorem mem_of_lookup [DecidableEq σ] {marks : List (σ × Cursor)} {name : σ} {place : Cursor}
    (h : marks.lookup name = some place) : (name, place) ∈ marks := by
  obtain ⟨front, back, rfl, -⟩ := List.lookup_eq_some_iff.mp h
  exact List.mem_append_right front List.mem_cons_self

/-- A part has the same text wherever the match is moved. -/
theorem Match.text?_within [DecidableEq σ] {m : Match σ} {t : Text}
    (hm : m.ending.MarksIn t) (name : σ) :
    (m.within front back).text? name = m.text? name := by
  rw [text?, span?, text?, span?, within, Ending.within, lookup_within, lookup_within]
  cases hb : m.ending.begins.lookup name with
  | none => rfl
  | some first =>
    cases he : m.ending.ends.lookup name with
    | none => rfl
    | some last =>
      have hfirst : first.IsIn t := hm.1 _ (mem_of_lookup hb)
      have hlast : last.IsIn t := hm.2 _ (mem_of_lookup he)
      have bytes : last.offset - first.offset ≤ byteLength first.rest := by
        have whole : byteLength first.before.reverse + byteLength first.rest =
            byteLength last.before.reverse + byteLength last.rest := by
          rw [← byteLength_append, ← byteLength_append, hfirst.1, hlast.1]
        rw [hfirst.2, hlast.2]
        omega
      simp [Span.text, Span.stop, Span.start, Nat.add_sub_add_left, takeBytes_append_of_le bytes]

end Matches

end Pattern

end SourceSurvey
