import SourceSurvey.Path.Basic
import Mathlib.Data.List.Basic

/-! Paths that grow by names. A name is one segment of a path, and a path with names put behind it
has the components of the path and then the names, whatever slashes and dots the path is written
with. So the last name, the part below the path and its parent are found again. -/

namespace SourceSurvey

namespace Text

theorem splitAll_eq_splitOnP (cut : Char → Bool) (t : Text) : splitAll cut t = t.splitOnP cut := by
  induction t with
  | nil => rw [splitAll, List.splitOnP_nil]
  | cons c t ih => rw [splitAll, List.splitOnP_cons_eq_if_modifyHead, ih]

/-- The two sides of a character that cuts are split one after the other. -/
theorem splitAll_append_cons {cut : Char → Bool} {c : Char} (hc : cut c = true) (a b : Text) :
    splitAll cut (a ++ c :: b) = splitAll cut a ++ splitAll cut b := by
  rw [splitAll_eq_splitOnP, splitAll_eq_splitOnP, splitAll_eq_splitOnP,
    List.splitOnP_append_cons a b hc]

theorem splitAll_of_whole {cut : Char → Bool} {t : Text} (h : ∀ c ∈ t, cut c = false) :
    splitAll cut t = [t] := by
  rw [splitAll_eq_splitOnP, List.splitOnP_eq_singleton h]

/-- A part of a text from one character that cuts, or from the start, up to the next one, or to the
end. -/
def IsPiece (cut : Char → Bool) (t piece : Text) : Prop :=
  ∃ before after, t = before ++ (piece ++ after) ∧ (∀ c ∈ piece, cut c = false) ∧
    (∀ c ∈ before.getLast?, cut c = true) ∧ ∀ c ∈ after.head?, cut c = true

/-- The pieces of a text with characters in front of it that do not cut. -/
theorem isPiece_of_mem {cut : Char → Bool} {t piece : Text} (front : Text)
    (hf : ∀ c ∈ front, cut c = false)
    (h : piece ∈ (splitAll cut t).modifyHead (front ++ ·)) : IsPiece cut (front ++ t) piece := by
  induction t generalizing front with
  | nil =>
    obtain rfl : piece = front := by simpa [splitAll] using h
    exact ⟨[], [], by simp, hf, by simp, by simp⟩
  | cons c t ih =>
    rw [splitAll] at h
    by_cases hc : cut c = true
    · rw [if_pos hc, List.modifyHead_cons, List.mem_cons, List.append_nil] at h
      rcases h with rfl | h
      · exact ⟨[], c :: t, rfl, hf, by simp, by simpa using hc⟩
      · have behind : IsPiece cut t piece :=
          ih [] (by simp) (by cases hs : splitAll cut t <;> simp_all)
        obtain ⟨before, after, split, whole, cutBefore, cutAfter⟩ := behind
        refine ⟨front ++ c :: before, after, by simp [split], whole, fun d hd => ?_, cutAfter⟩
        cases before with
        | nil => simp_all
        | cons e before => exact cutBefore d (by simpa using hd)
    · rw [if_neg hc, List.modifyHead_modifyHead] at h
      have longer : ∀ d ∈ front ++ [c], cut d = false := by
        simpa [or_imp, forall_and] using ⟨hf, Bool.not_eq_true _ ▸ hc⟩
      have same : (fun s => front ++ s) ∘ (c :: ·) = ((front ++ [c]) ++ ·) := by
        funext s
        simp
      rw [same] at h
      simpa using ih (front ++ [c]) longer h

theorem mem_splitAll_iff {cut : Char → Bool} {t piece : Text} :
    piece ∈ splitAll cut t ↔ IsPiece cut t piece := by
  constructor
  · intro h
    exact isPiece_of_mem [] (by simp) (by cases hs : splitAll cut t <;> simp_all)
  · rintro ⟨before, after, rfl, whole, cutBefore, cutAfter⟩
    have inside : piece ∈ splitAll cut (piece ++ after) := by
      cases after with
      | nil => rw [List.append_nil, splitAll_of_whole whole]; exact List.mem_singleton_self _
      | cons c after =>
        rw [splitAll_append_cons (cutAfter c rfl), splitAll_of_whole whole]
        exact List.mem_cons_self
    rcases List.eq_nil_or_concat before with rfl | ⟨before, c, rfl⟩
    · exact inside
    · rw [List.concat_append, splitAll_append_cons (cutBefore c (by simp))]
      exact List.mem_append_right _ inside

end Text

namespace Path

open Text

/-! ### Segments -/

/-- Whether a text can stand between two slashes and name an entry there. -/
def isSegment (name : Text) : Bool := !isSilent name && name ≠ ['.', '.'] && !name.contains '/'

variable {dir front name path : Text} {names : List Text}

theorem isSegment_iff : isSegment name = true ↔ isSilent name = false ∧ name ≠ ['.', '.'] ∧
    '/' ∉ name := by
  simp [isSegment, and_assoc]

theorem not_silent (h : isSegment name = true) : isSilent name = false := (isSegment_iff.mp h).1

theorem slash_notMem (h : isSegment name = true) : '/' ∉ name := (isSegment_iff.mp h).2.2

theorem ne_nil_of_isSegment (h : isSegment name = true) : name ≠ [] := by
  rintro rfl
  exact absurd (not_silent h) (by decide)

theorem segmentComponent?_of_isSegment (h : isSegment name = true) :
    segmentComponent? name = some (.name name) := by
  rw [segmentComponent?, not_silent h, if_neg (by decide), if_neg (isSegment_iff.mp h).2.1]

theorem exists_segmentComponent? (h : isSilent name = false) :
    ∃ c, segmentComponent? name = some c := by
  rw [segmentComponent?, h, if_neg (by decide)]
  split <;> exact ⟨_, rfl⟩

theorem filterMap_segmentComponent? (hn : ∀ n ∈ names, isSegment n = true) :
    names.filterMap segmentComponent? = names.map .name := by
  rw [List.filterMap_congr fun n hm => segmentComponent?_of_isSegment (hn n hm),
    List.filterMap_eq_map']

theorem isAbsolute_of_isSegment (h : isSegment name = true) : isAbsolute name = false := by
  refine decide_eq_false fun hs => slash_notMem h ?_
  exact List.mem_of_head? hs

theorem segments_append_slash (a b : Text) : segments (a ++ '/' :: b) = segments a ++ segments b :=
  splitAll_append_cons (by decide) a b

theorem segments_of_isSegment (h : isSegment name = true) : segments name = [name] := by
  refine splitAll_of_whole fun c hc => decide_eq_false ?_
  rintro rfl
  exact slash_notMem h hc

/-- A path that begins with neither a slash nor a dot segment is all segments. -/
theorem split_of_plain {c : Char} {rest : Text} (hc : c ≠ '/')
    (hd : c = '.' → rest ≠ [] ∧ rest.head? ≠ some '/') :
    split (c :: rest) = ([], segments (c :: rest)) := by
  rw [split, segments]
  · simpa using hc
  · intro h
    exact (hd (List.cons.inj h).1).1 (List.cons.inj h).2
  · intro b h
    refine (hd (List.cons.inj h).1).2 ?_
    rw [(List.cons.inj h).2]
    rfl

/-- A slash cuts the segments of a path in two and leaves what stands at its start. -/
theorem split_append_slash (hf : front ≠ []) (rest : Text) :
    split (front ++ '/' :: rest) = ((split front).1, (split front).2 ++ segments rest) := by
  obtain ⟨c, a, rfl⟩ := List.exists_cons_of_ne_nil hf
  by_cases hs : c = '/'
  · subst hs
    exact congrArg (Prod.mk ['/']) (segments_append_slash a rest)
  by_cases hd : c = '.' ∧ (a = [] ∨ a.head? = some '/')
  · obtain ⟨rfl, rfl | ha⟩ := hd
    · rfl
    · obtain ⟨b, rfl⟩ := List.head?_eq_some_iff.mp ha
      exact congrArg (fun s => (['.'], [] :: s)) (segments_append_slash b rest)
  · have apart (hc : c = '.') : a ≠ [] ∧ a.head? ≠ some '/' := by simpa [hc] using hd
    have apart' (hc : c = '.') : a ++ '/' :: rest ≠ [] ∧ (a ++ '/' :: rest).head? ≠ some '/' := by
      obtain ⟨d, b, rfl⟩ := List.exists_cons_of_ne_nil (apart hc).1
      exact ⟨by simp, (apart hc).2⟩
    rw [List.cons_append, split_of_plain hs apart, split_of_plain hs apart', ← List.cons_append,
      segments_append_slash]

theorem split_of_isSegment (h : isSegment name = true) : split name = ([], [name]) := by
  obtain ⟨c, rest, rfl⟩ := List.exists_cons_of_ne_nil (ne_nil_of_isSegment h)
  rw [split_of_plain, segments_of_isSegment h]
  · rintro rfl
    exact slash_notMem h List.mem_cons_self
  · rintro rfl
    refine ⟨?_, fun hs => slash_notMem h (List.mem_cons_of_mem _ (List.mem_of_head? hs))⟩
    rintro rfl
    exact absurd (not_silent h) (by decide)

/-! ### A name behind a directory -/

theorem join_of_relative (h : isAbsolute path = false) :
    join dir path = (if dir = [] ∨ dir.getLast? = some '/' then dir else dir ++ ['/']) ++ path := by
  rw [join, h, if_neg (by decide)]
  split <;> rfl

/-- A name behind a directory stands behind a slash, which the directory may have at its end. -/
theorem exists_join_eq (hd : dir ≠ []) (hn : isSegment name = true) :
    ∃ front, join dir name = front ++ '/' :: name ∧ (dir = front ∨ dir = front ++ ['/']) := by
  rw [join_of_relative (isAbsolute_of_isSegment hn)]
  by_cases hl : dir.getLast? = some '/'
  · rw [if_pos (.inr hl)]
    obtain ⟨front, rfl⟩ := List.getLast?_eq_some_iff.mp hl
    exact ⟨front, by rw [List.append_assoc, List.singleton_append], .inr rfl⟩
  · rw [if_neg (by simp [hd, hl])]
    exact ⟨dir, by rw [List.append_assoc, List.singleton_append], .inl rfl⟩

theorem join_nil (hn : isSegment name = true) : join [] name = name :=
  (join_of_relative (isAbsolute_of_isSegment hn)).trans (by rw [if_pos (.inl rfl), List.nil_append])

theorem join_ne_nil (hn : isSegment name = true) : join dir name ≠ [] := by
  rw [join_of_relative (isAbsolute_of_isSegment hn)]
  exact List.append_ne_nil_of_right_ne_nil _ (ne_nil_of_isSegment hn)

theorem isAbsolute_append (hd : dir ≠ []) (rest : Text) :
    isAbsolute (dir ++ rest) = isAbsolute dir := by
  obtain ⟨c, dir, rfl⟩ := List.exists_cons_of_ne_nil hd
  rfl

/-- A name behind a directory adds one segment, wherever the path is read from. -/
theorem exists_segments_join (base : Text) (hd : dir ≠ []) (hn : isSegment name = true) : ∃ front,
    segments (join base (join dir name)) = front ++ [name] ∧
      (segments (join base dir) = front ∨ segments (join base dir) = front ++ [[]]) := by
  obtain ⟨front, hj, hf⟩ := exists_join_eq hd hn
  have same : isAbsolute (join dir name) = isAbsolute dir := by
    rw [hj]
    rcases hf with rfl | rfl
    · exact isAbsolute_append hd _
    · by_cases he : front = []
      · subst he
        rfl
      · rw [isAbsolute_append he, isAbsolute_append he]
  obtain ⟨start, from_⟩ : ∃ start, ∀ path, isAbsolute path = isAbsolute dir →
      join base path = start ++ path := by
    cases ha : isAbsolute dir with
    | true => exact ⟨[], fun path hp => by rw [join, if_pos hp, List.nil_append]⟩
    | false => exact ⟨_, fun path hp => join_of_relative hp⟩
  refine ⟨segments (start ++ front), ?_, ?_⟩
  · rw [from_ _ same, hj, ← List.append_assoc, segments_append_slash, segments_of_isSegment hn]
  · rw [from_ dir rfl]
    rcases hf with hf | hf
    · exact .inl (by rw [hf])
    · refine .inr ?_
      rw [hf, ← List.append_assoc, segments_append_slash]
      rfl

theorem split_join (hd : dir ≠ []) (hn : isSegment name = true) : ∃ front,
    split (join dir name) = ((split dir).1, front ++ [name]) ∧
      ((split dir).2 = front ∨ (split dir).2 = front ++ [[]]) := by
  obtain ⟨front, hj, hf⟩ := exists_join_eq hd hn
  rw [hj]
  by_cases hn' : front = []
  · subst hn'
    have root : dir = ['/'] := by
      rcases hf with hf | hf
      · exact absurd hf hd
      · exact hf
    subst root
    exact ⟨[], congrArg (Prod.mk ['/']) (segments_of_isSegment hn), .inr rfl⟩
  · rw [split_append_slash hn', segments_of_isSegment hn]
    rcases hf with rfl | rfl
    · exact ⟨(split dir).2, rfl, .inl rfl⟩
    · rw [split_append_slash hn']
      exact ⟨(split front).2, rfl, .inr rfl⟩

/-- The components of a path and then the name. -/
theorem components_join (hn : isSegment name = true) :
    components (join dir name) = components dir ++ [.name name] := by
  have last : [name].filterMap segmentComponent? = [.name name] :=
    List.filterMap_cons_some (segmentComponent?_of_isSegment hn)
  by_cases hd : dir = []
  · subst hd
    rw [join_nil hn, components, split_of_isSegment hn, last]
    rfl
  · obtain ⟨front, hs, hf⟩ := split_join hd hn
    rw [components, components, hs, List.filterMap_append, last, List.append_assoc]
    rcases hf with hf | hf
    · rw [hf]
    · rw [hf, List.filterMap_append]
      rw [show [[]].filterMap segmentComponent? = [] from rfl, List.append_nil]

theorem fileName?_join (hn : isSegment name = true) : fileName? (join dir name) = some name := by
  rw [fileName?, components_join hn, List.getLast?_concat]

/-! ### Names behind a directory -/

/-- The path that leads from a directory on along some names. -/
def below (dir : Text) (names : List Text) : Text := names.foldl join dir

@[simp] theorem below_nil (dir : Text) : below dir [] = dir := rfl

@[simp] theorem below_cons (dir name : Text) (names : List Text) :
    below dir (name :: names) = below (join dir name) names := rfl

theorem below_append (dir : Text) (names rest : List Text) :
    below dir (names ++ rest) = below (below dir names) rest :=
  List.foldl_append

theorem below_concat (dir name : Text) (names : List Text) :
    below dir (names ++ [name]) = join (below dir names) name :=
  below_append dir names [name]

theorem components_below (hn : ∀ n ∈ names, isSegment n = true) :
    components (below dir names) = components dir ++ names.map .name := by
  induction names generalizing dir with
  | nil => simp
  | cons n names ih =>
    rw [List.forall_mem_cons] at hn
    rw [below_cons, ih hn.2, components_join hn.1, List.map_cons, List.append_assoc,
      List.singleton_append]

/-- Different names lead to different paths, and not only to differently written ones. -/
theorem below_injective {others : List Text} (hn : ∀ n ∈ names, isSegment n = true)
    (ho : ∀ n ∈ others, isSegment n = true)
    (h : components (below dir names) = components (below dir others)) :
    names = others := by
  rw [components_below hn, components_below ho, List.append_cancel_left_eq] at h
  exact List.map_injective_iff.mpr (fun a b hab => Component.name.inj hab) h

theorem split_below (hd : dir ≠ []) (hn : ∀ n ∈ names, isSegment n = true)
    (hne : names ≠ []) : ∃ front, split (below dir names) = ((split dir).1, front ++ names) ∧
      ((split dir).2 = front ∨ (split dir).2 = front ++ [[]]) := by
  induction names generalizing dir with
  | nil => exact absurd rfl hne
  | cons n names ih =>
    rw [List.forall_mem_cons] at hn
    obtain ⟨front, hs, hf⟩ := split_join hd hn.1
    by_cases hr : names = []
    · subst hr
      exact ⟨front, hs, hf⟩
    · obtain ⟨longer, hb, hl⟩ := ih (join_ne_nil hn.1) hn.2 hr
      -- behind a name no further slash stands, so the next name comes directly behind it
      have last : longer = front ++ [n] := by
        rw [hs] at hl
        rcases hl with hl | hl
        · exact hl.symm
        · exact absurd (List.append_inj_right' hl rfl) (by simpa using ne_nil_of_isSegment hn.1)
      refine ⟨front, ?_, hf⟩
      rw [below_cons, hb, hs, last, List.append_assoc, List.singleton_append]

/-! ### The written form -/

/-- Some names with a slash in front of each. -/
def slashed (names : List Text) : Text := names.flatMap ('/' :: ·)

theorem joinSegments_cons (name : Text) (names : List Text) :
    joinSegments (name :: names) = name ++ slashed names := by
  induction names generalizing name with
  | nil => simp [joinSegments, slashed]
  | cons n names ih =>
    have rest : ['/'].intercalate (n :: names) = n ++ slashed names := ih n
    rw [joinSegments, List.intercalate_cons_cons, rest, List.append_assoc]
    rfl

theorem below_eq_slashed (hd : dir ≠ []) (hl : dir.getLast? ≠ some '/')
    (hn : ∀ n ∈ names, isSegment n = true) :
    below dir names = dir ++ slashed names := by
  induction names generalizing dir with
  | nil => exact (List.append_nil dir).symm
  | cons n names ih =>
    rw [List.forall_mem_cons] at hn
    have joined : join dir n = dir ++ '/' :: n := by
      rw [join_of_relative (isAbsolute_of_isSegment hn.1), if_neg (by simp [hd, hl]),
        List.append_assoc, List.singleton_append]
    have last : (dir ++ '/' :: n).getLast? ≠ some '/' := by
      rw [← List.singleton_append, ← List.append_assoc,
        List.getLast?_append_of_ne_nil _ (ne_nil_of_isSegment hn.1)]
      exact fun h => slash_notMem hn.1 (List.mem_of_getLast? h)
    rw [below_cons, joined, ih (by simp) last hn.2, List.append_assoc]
    rfl

theorem segments_joinSegments (hn : ∀ n ∈ names, isSegment n = true) (hne : names ≠ []) :
    segments (joinSegments names) = names := by
  rw [segments, splitAll_eq_splitOnP]
  exact List.splitOn_intercalate '/' (fun n hm => slash_notMem (hn n hm)) hne

/-- A relative path of names behind a directory. -/
theorem join_joinSegments (hn : ∀ n ∈ names, isSegment n = true) (hne : names ≠ []) :
    join dir (joinSegments names) = below dir names := by
  obtain ⟨n, names, rfl⟩ := List.exists_cons_of_ne_nil hne
  rw [List.forall_mem_cons] at hn
  have relative : isAbsolute (n ++ slashed names) = false :=
    (isAbsolute_append (ne_nil_of_isSegment hn.1) _).trans (isAbsolute_of_isSegment hn.1)
  have last : (join dir n).getLast? ≠ some '/' := by
    rw [join_of_relative (isAbsolute_of_isSegment hn.1),
      List.getLast?_append_of_ne_nil _ (ne_nil_of_isSegment hn.1)]
    exact fun h => slash_notMem hn.1 (List.mem_of_getLast? h)
  rw [below_cons, below_eq_slashed (join_ne_nil hn.1) last hn.2, joinSegments_cons,
    join_of_relative relative, join_of_relative (isAbsolute_of_isSegment hn.1), List.append_assoc]

/-- Names behind the root. -/
theorem below_root (hn : ∀ n ∈ names, isSegment n = true) :
    below ['/'] names = '/' :: joinSegments names := by
  by_cases hne : names = []
  · subst hne
    rfl
  · obtain ⟨n, rest, rfl⟩ := List.exists_cons_of_ne_nil hne
    rw [← join_joinSegments hn hne, joinSegments_cons, join_of_relative, if_pos (.inr rfl)]
    · rfl
    · rw [List.forall_mem_cons] at hn
      exact (isAbsolute_append (ne_nil_of_isSegment hn.1) _).trans (isAbsolute_of_isSegment hn.1)

theorem split_joinSegments (hn : ∀ n ∈ names, isSegment n = true) (hne : names ≠ []) :
    split (joinSegments names) = ([], names) := by
  obtain ⟨n, rest, rfl⟩ := List.exists_cons_of_ne_nil hne
  rw [List.forall_mem_cons] at hn
  cases rest with
  | nil => simpa [joinSegments] using split_of_isSegment hn.1
  | cons m rest =>
    have behind : slashed (m :: rest) = '/' :: joinSegments (m :: rest) := by
      rw [joinSegments_cons]
      rfl
    rw [joinSegments_cons, behind, split_append_slash (ne_nil_of_isSegment hn.1),
      split_of_isSegment hn.1, segments_joinSegments hn.2 (by simp)]
    rfl

/-- A path of names has these names as its components. -/
theorem components_joinSegments (hn : ∀ n ∈ names, isSegment n = true) :
    components (joinSegments names) = names.map .name := by
  by_cases hne : names = []
  · subst hne
    rfl
  · rw [components, split_joinSegments hn hne, filterMap_segmentComponent? hn]
    rfl

/-! ### Names found again -/

theorem trimSegments_append (front : List Text) (hn : ∀ n ∈ names, isSegment n = true)
    (hne : names ≠ []) :
    trimSegments (front ++ names) = front ++ names := by
  obtain ⟨names, name, rfl⟩ := (List.eq_nil_or_concat names).resolve_left hne
  have last := not_silent (hn name (by simp))
  rw [trimSegments, List.concat_eq_append, ← List.append_assoc, List.reverse_concat,
    List.dropWhile_cons_of_neg (by simp [last]), List.reverse_cons, List.reverse_reverse]

theorem trimSegments_of_names (hn : ∀ n ∈ names, isSegment n = true) :
    trimSegments names = names := by
  by_cases hne : names = []
  · subst hne
    rfl
  · exact trimSegments_append [] hn hne

theorem parent?_of_split {head : Text} (h : split path = (head, names ++ [name]))
    (hn : ∀ n ∈ names ++ [name], isSegment n = true) :
    parent? path = some (head ++ joinSegments names) := by
  obtain ⟨n, rest, hr⟩ := List.exists_cons_of_ne_nil (l := names ++ [name]) (by simp)
  have kept : (n :: rest).dropLast = names := by rw [← hr, List.dropLast_concat]
  have trimmed : trimSegments (n :: rest) = n :: rest := hr ▸ trimSegments_of_names hn
  have shorter : trimSegments names = names :=
    trimSegments_of_names fun m hm => hn m (List.mem_append_left _ hm)
  simp only [parent?, h, hr, trimmed, kept, shorter]

theorem parent?_joinSegments (hn : ∀ n ∈ names ++ [name], isSegment n = true) :
    parent? (joinSegments (names ++ [name])) = some (joinSegments names) :=
  parent?_of_split (split_joinSegments hn (by simp)) hn

theorem parent?_below_root (hn : ∀ n ∈ names ++ [name], isSegment n = true) :
    parent? (below ['/'] (names ++ [name])) = some (below ['/'] names) := by
  have written : split ('/' :: joinSegments (names ++ [name])) = (['/'], names ++ [name]) :=
    congrArg (Prod.mk ['/']) (segments_joinSegments hn (by simp))
  rw [below_root hn, parent?_of_split written hn, below_root fun n hm =>
    hn n (List.mem_append_left _ hm)]
  rfl

/-- Behind the components of a front stands what the front was put before, but for silent segments.
-/
theorem dropWhile_dropNamed (front rest : List Text) :
    (dropNamed (front.filterMap segmentComponent?).length (front ++ rest)).dropWhile isSilent =
      rest.dropWhile isSilent := by
  induction front with
  | nil => rw [List.filterMap_nil, List.length_nil, dropNamed, List.nil_append]
  | cons s front ih =>
    by_cases hs : isSilent s = true
    · have silent : segmentComponent? s = none := by rw [segmentComponent?, if_pos hs]
      rw [List.filterMap_cons_none silent]
      cases hl : (front.filterMap segmentComponent?).length with
      | zero =>
        rw [hl, dropNamed] at ih
        rw [dropNamed, List.cons_append, List.dropWhile_cons_of_pos hs, ih]
      | succ k => rw [List.cons_append, dropNamed, if_pos hs, ← hl, ih]
    · obtain ⟨c, told⟩ := exists_segmentComponent? (eq_false_of_ne_true hs)
      rw [List.filterMap_cons_some told, List.length_cons, List.cons_append,
        dropNamed, if_neg hs, ih]

/-- The empty path is the only one without components. -/
theorem components_ne_nil (hd : dir ≠ []) : components dir ≠ [] := by
  obtain ⟨c, rest, rfl⟩ := List.exists_cons_of_ne_nil hd
  by_cases hs : c = '/'
  · subst hs
    exact List.cons_ne_nil _ _
  by_cases hd : c = '.' ∧ (rest = [] ∨ rest.head? = some '/')
  · obtain ⟨rfl, rfl | hr⟩ := hd
    · exact List.cons_ne_nil _ _
    · obtain ⟨b, rfl⟩ := List.head?_eq_some_iff.mp hr
      exact List.cons_ne_nil _ _
  · -- the first segment is neither empty nor a dot
    have apart (hc : c = '.') : rest ≠ [] ∧ rest.head? ≠ some '/' := by simpa [hc] using hd
    obtain ⟨first, others, hf⟩ :=
      List.exists_cons_of_ne_nil (List.splitOnP_ne_nil (fun x => decide (x = '/')) rest)
    have cut : segments (c :: rest) = (c :: first) :: others := by
      rw [segments, splitAll_eq_splitOnP, List.splitOnP_cons_eq_if_modifyHead, hf,
        if_neg (by simpa using hs)]
      rfl
    have told : isSilent (c :: first) = false := by
      refine decide_eq_false ?_
      rintro ⟨rfl, rfl⟩
      obtain ⟨d, b, rfl⟩ := List.exists_cons_of_ne_nil (apart rfl).1
      have other : d ≠ '/' := fun h => (apart rfl).2 (congrArg some h)
      rw [List.splitOnP_cons_eq_if_modifyHead, if_neg (by simpa using other)] at hf
      obtain ⟨p, ps, hp⟩ :=
        List.exists_cons_of_ne_nil (List.splitOnP_ne_nil (fun x => decide (x = '/')) b)
      rw [hp] at hf
      exact List.cons_ne_nil d p (List.cons.inj hf).1
    obtain ⟨component, hc⟩ := exists_segmentComponent? told
    rw [components, split_of_plain hs apart, cut, List.filterMap_cons_some hc]
    exact List.append_ne_nil_of_right_ne_nil _ (List.cons_ne_nil _ _)

theorem length_headComponents (h : (split dir).1 ≠ []) :
    (headComponents (split dir).1).length = 1 := by
  revert h
  fun_cases split dir
  · exact fun _ => rfl
  · exact fun _ => rfl
  · exact fun _ => rfl
  · exact fun h => absurd rfl h

/-- What names add to a directory is these names. -/
theorem relativeTo?_below (hd : dir ≠ []) (hn : ∀ n ∈ names, isSegment n = true) :
    relativeTo? dir (below dir names) = some (joinSegments names) := by
  have inside : isBelow dir (below dir names) = true := by
    rw [isBelow, components_below hn, List.isPrefixOf_iff_prefix]
    exact List.prefix_append _ _
  obtain ⟨front, hs, hf⟩ : ∃ front, split (below dir names) = ((split dir).1, front ++ names) ∧
      front.filterMap segmentComponent? = (split dir).2.filterMap segmentComponent? := by
    by_cases hne : names = []
    · subst hne
      exact ⟨(split dir).2, by rw [below_nil, List.append_nil], rfl⟩
    · obtain ⟨front, hs, hf⟩ := split_below hd hn hne
      refine ⟨front, hs, ?_⟩
      rcases hf with hf | hf
      · rw [hf]
      · rw [hf, List.filterMap_append, show [[]].filterMap segmentComponent? = [] from rfl,
          List.append_nil]
  have counted : (components dir).length =
      (headComponents (split dir).1).length + (front.filterMap segmentComponent?).length := by
    rw [components, List.length_append, hf]
  have some : (components dir).length ≠ 0 := by simpa using components_ne_nil hd
  have taken :
      (if (split dir).1 = [] then (components dir).length else (components dir).length - 1) =
      (front.filterMap segmentComponent?).length := by
    rw [counted]
    by_cases hh : (split dir).1 = []
    · rw [if_pos hh, hh]
      exact Nat.zero_add _
    · rw [if_neg hh, length_headComponents hh]
      omega
  have shown : names.dropWhile isSilent = names := by
    cases names with
    | nil => rfl
    | cons n names => exact List.dropWhile_cons_of_neg (by simp [not_silent (hn n (by simp))])
  rw [relativeTo?, if_pos inside, behind, hs]
  simp only [if_neg some, taken, dropWhile_dropNamed, shown, trimSegments_of_names hn]

end Path

end SourceSurvey
