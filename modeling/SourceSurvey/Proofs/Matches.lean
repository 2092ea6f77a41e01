import SourceSurvey.Source.Grammar

/-! The order of matches. The places of a text have increasing offsets, a pattern has at most one
candidate at each of them, and a search only leaves candidates out. So matches come in text order,
and so do the headers that are read off them. -/

namespace SourceSurvey

namespace Cursor

theorem offset_past (here : Cursor) (c : Char) (rest : Text) :
    (here.past c rest).offset = here.offset + c.utf8Size := rfl

theorem offset_le_of_mem_placesFrom {here there : Cursor} {rest : Text}
    (h : there ∈ placesFrom here rest) :
    here.offset ≤ there.offset := by
  induction rest generalizing here with
  | nil =>
    rw [placesFrom, List.mem_singleton] at h
    subst h
    exact Nat.le_refl _
  | cons c rest ih =>
    rw [placesFrom, List.mem_cons] at h
    rcases h with rfl | h
    · exact Nat.le_refl _
    · have := ih h
      rw [offset_past] at this
      omega

theorem pairwise_placesFrom (here : Cursor) (rest : Text) :
    (placesFrom here rest).Pairwise (·.offset < ·.offset) := by
  induction rest generalizing here with
  | nil => exact List.pairwise_singleton ..
  | cons c rest ih =>
    refine List.pairwise_cons.mpr ⟨fun there h => ?_, ih _⟩
    have hp := c.utf8Size_pos
    have ho := offset_le_of_mem_placesFrom h
    rw [offset_past] at ho
    omega

end Cursor

namespace Pattern

open Text

variable {σ : Type} {p : Pattern σ}

theorem first_of_matchAt {here : Cursor} {m : Match σ} (h : p.matchAt here = some m) :
    m.first = here := by
  obtain ⟨ending, -, rfl⟩ := Option.map_eq_some_iff.mp h
  rfl

theorem pairwise_candidates (p : Pattern σ) (t : Text) :
    (p.candidates t).Pairwise (·.start < ·.start) := by
  rw [candidates_eq, List.pairwise_filterMap]
  refine (Cursor.pairwise_placesFrom (Cursor.ofText t) t).imp ?_
  intro a b hab m hm n hn
  rw [Match.start, Match.start, first_of_matchAt hm, first_of_matchAt hn]
  exact hab

theorem isIn_of_mem_candidates {t : Text} {m : Match σ}
    (h : m ∈ p.candidates t) : m.first.IsIn t := by
  rw [candidates_eq] at h
  obtain ⟨here, hp, hm⟩ := List.mem_filterMap.mp h
  rw [first_of_matchAt hm]
  exact Cursor.isIn_of_mem_places hp

theorem select_sublist (refuses : Cursor → Bool) (resume : Nat) (ms : List (Match σ)) :
    (select refuses resume ms).Sublist ms := by
  induction ms generalizing resume with
  | nil => exact List.Sublist.slnil
  | cons m ms ih =>
    rw [select]
    split
    · exact (ih resume).cons m
    · exact (ih _).cons_cons m

/-- Whatever a search refuses, its matches come in text order. -/
theorem pairwise_matchesUnless (p : Pattern σ) (refuses : Cursor → Bool) (t : Text) :
    (p.matchesUnless refuses t).Pairwise (·.start < ·.start) :=
  (pairwise_candidates p t).sublist (select_sublist refuses 0 _)

theorem refuses_of_mem_select {refuses : Cursor → Bool} {m : Match σ}
    {ms : List (Match σ)} {resume : Nat}
    (h : m ∈ select refuses resume ms) : refuses m.first = false := by
  induction ms generalizing resume with
  | nil => exact absurd h List.not_mem_nil
  | cons n ms ih =>
    rw [select] at h
    split at h
    · exact ih h
    · rename_i kept
      rcases List.mem_cons.mp h with rfl | h
      · exact Bool.eq_false_iff.mpr fun refused => kept (by rw [refused, Bool.or_true])
      · exact ih h

theorem refuses_of_mem_matchesUnless {refuses : Cursor → Bool} {t : Text} {m : Match σ}
    (h : m ∈ p.matchesUnless refuses t) : refuses m.first = false := refuses_of_mem_select h

/-- A match that a search takes is the one at a place of the text. -/
theorem exists_matchAt_of_mem {refuses : Cursor → Bool} {t : Text} {m : Match σ}
    (h : m ∈ p.matchesUnless refuses t) :
    ∃ here ∈ Cursor.places t, p.matchAt here = some m := by
  have candidate := (select_sublist refuses 0 _).subset h
  rwa [candidates_eq, List.mem_filterMap] at candidate

theorem isIn_of_mem_matchesUnless {refuses : Cursor → Bool} {t : Text} {m : Match σ}
    (h : m ∈ p.matchesUnless refuses t) : m.first.IsIn t :=
  isIn_of_mem_candidates ((select_sublist refuses 0 _).subset h)

end Pattern

namespace Source

open Text Pattern

/-! ### Headers -/

theorem CSharp.place_of_typeHeader? {m : Match Slot} {h : TypeHeader}
    (hh : CSharp.typeHeader? m = some h) :
    h.place = m.first := by
  rw [CSharp.typeHeader?] at hh
  split at hh
  · exact absurd hh (by simp)
  · obtain ⟨word, -, hh⟩ := Option.bind_eq_some_iff.mp hh
    obtain ⟨kind, -, hh⟩ := Option.bind_eq_some_iff.mp hh
    rw [← Option.some.inj hh]

theorem Java.place_of_typeHeader? {m : Match Slot} {h : TypeHeader}
    (hh : Java.typeHeader? m = some h) :
    h.place = m.first := by
  obtain ⟨kind, -, hh⟩ := Option.bind_eq_some_iff.mp hh
  rw [← Option.some.inj hh]

theorem CSharp.start_of_typeHeader? {m : Match Slot} {h : TypeHeader}
    (hh : CSharp.typeHeader? m = some h) :
    h.start = m.start :=
  congrArg Cursor.offset (CSharp.place_of_typeHeader? hh)

theorem Java.start_of_typeHeader? {m : Match Slot} {h : TypeHeader}
    (hh : Java.typeHeader? m = some h) :
    h.start = m.start :=
  congrArg Cursor.offset (Java.place_of_typeHeader? hh)

/-- Type headers come in text order where each is read off a match and starts with it. -/
theorem pairwise_filterMap_matches {read : Match Slot → Option TypeHeader}
    (hr : ∀ m h, read m = some h → h.start = m.start) (p : Pattern Slot) (t : Text) :
    ((p.allMatches t).filterMap read).Pairwise (·.start < ·.start) := by
  rw [List.pairwise_filterMap]
  refine (pairwise_matchesUnless p _ t).imp ?_
  intro a b hab h hh k hk
  rw [hr a h hh, hr b k hk]
  exact hab

theorem pairwise_memberHeaders (p : Pattern Slot) (t : Text) :
    (memberHeaders p t).Pairwise (·.start < ·.start) :=
  List.pairwise_map.mpr (pairwise_matchesUnless p _ t)

end Source

namespace Language

open Source

variable (language : Language) (t : Text)

theorem pairwise_typeHeaders : (language.typeHeaders t).Pairwise (·.start < ·.start) := by
  cases language with
  | csharp => exact pairwise_filterMap_matches (fun _ _ => CSharp.start_of_typeHeader?) _ t
  | java => exact pairwise_filterMap_matches (fun _ _ => Java.start_of_typeHeader?) _ t

theorem pairwise_methodHeaders : (language.methodHeaders t).Pairwise (·.start < ·.start) := by
  cases language with
  | csharp => exact pairwise_memberHeaders _ t
  | java => exact pairwise_memberHeaders _ t

theorem pairwise_constructorHeaders :
    (language.constructorHeaders t).Pairwise (·.start < ·.start) := by
  cases language with
  | csharp => exact pairwise_memberHeaders _ t
  | java => exact pairwise_memberHeaders _ t

theorem isIn_of_mem_typeHeaders {h : TypeHeader} (hh : h ∈ language.typeHeaders t) :
    h.place.IsIn t := by
  cases language with
  | csharp =>
    obtain ⟨m, hm, hr⟩ := List.mem_filterMap.mp hh
    rw [CSharp.place_of_typeHeader? hr]
    exact Pattern.isIn_of_mem_matchesUnless hm
  | java =>
    obtain ⟨m, hm, hr⟩ := List.mem_filterMap.mp hh
    rw [Java.place_of_typeHeader? hr]
    exact Pattern.isIn_of_mem_matchesUnless hm

theorem isIn_of_mem_memberHeaders {p : Pattern Slot} {h : MemberHeader}
    (hh : h ∈ memberHeaders p t) : h.place.IsIn t := by
  obtain ⟨m, hm, rfl⟩ := List.mem_map.mp hh
  exact Pattern.isIn_of_mem_matchesUnless hm

theorem isIn_of_mem_methodHeaders {h : MemberHeader} (hh : h ∈ language.methodHeaders t) :
    h.place.IsIn t := by
  cases language with
  | csharp => exact isIn_of_mem_memberHeaders t hh
  | java => exact isIn_of_mem_memberHeaders t hh

theorem isIn_of_mem_constructorHeaders {h : MemberHeader} (hh : h ∈ language.constructorHeaders t) :
    h.place.IsIn t := by
  cases language with
  | csharp => exact isIn_of_mem_memberHeaders t hh
  | java => exact isIn_of_mem_memberHeaders t hh

end Language

end SourceSurvey
