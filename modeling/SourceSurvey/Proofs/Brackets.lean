import SourceSurvey.Proofs.Clause
import SourceSurvey.Proofs.MemberName

/-! Brackets across the entries of a list. The splitter counts angle brackets and nothing else, so a
group in angle brackets stays within one entry, and a group in parentheses or square brackets does
so exactly if none of its commas has angle depth zero. An attribute with two arguments is torn
apart. -/

namespace SourceSurvey.Source

open Text Pattern

/-! ### Balanced texts -/

/-- The brackets that group, each with the one that closes it. -/
def bracketKinds : List (Char × Char) := [('(', ')'), ('[', ']'), ('<', '>')]

/-- The closing brackets that are owed behind a character, innermost first. There is no answer
behind a closing bracket that is not the innermost one owed. -/
def owe (kinds : List (Char × Char)) (owed : Text) (c : Char) : Option Text :=
  match kinds.lookup c with
  | some close => some (close :: owed)
  | none =>
    if c ∈ kinds.map (·.2) then if owed.head? = some c then some owed.tail else none
    else some owed

/-- Every bracket of the given kinds is closed by its own, and groups are nested. -/
def Balanced (kinds : List (Char × Char)) (t : Text) : Prop := t.foldlM (owe kinds) [] = some []

instance (kinds : List (Char × Char)) (t : Text) : Decidable (Balanced kinds t) :=
  inferInstanceAs (Decidable (_ = _))

section Balanced

variable {kinds : List (Char × Char)}

theorem balanced_nil : Balanced kinds [] := rfl

/-- What is no bracket changes nothing. -/
theorem owe_of_ne (hk : kinds ⊆ bracketKinds) {c : Char}
    (hc : ∀ k ∈ bracketKinds, c ≠ k.1 ∧ c ≠ k.2) (owed : Text) :
    owe kinds owed c = some owed := by
  have opens : kinds.lookup c = none := by
    rw [List.lookup_eq_none_iff]
    exact fun k hk' => by simpa using (hc k (hk hk')).1
  have closes : c ∉ kinds.map (·.2) := fun h => by
    obtain ⟨k, hk', rfl⟩ := List.mem_map.mp h
    exact (hc k (hk hk')).2 rfl
  rw [owe, opens]
  exact if_neg closes

theorem owe_comma (hk : kinds ⊆ bracketKinds) (owed : Text) : owe kinds owed ',' = some owed :=
  owe_of_ne hk (by decide) owed

theorem owe_of_isBlank (hk : kinds ⊆ bracketKinds) {c : Char} (hc : isBlank c = true)
    (owed : Text) :
    owe kinds owed c = some owed := by
  have solid : ∀ k ∈ bracketKinds, isBlank k.1 = false ∧ isBlank k.2 = false := by decide
  refine owe_of_ne hk (fun k hb => ⟨?_, ?_⟩) owed
  · rintro rfl
    exact absurd hc (by simp [(solid k hb).1])
  · rintro rfl
    exact absurd hc (by simp [(solid k hb).2])

theorem foldlM_owe_filter (hk : kinds ⊆ bracketKinds) (owed t : Text) :
    (t.filter fun c => !isBlank c).foldlM (owe kinds) owed = t.foldlM (owe kinds) owed := by
  induction t generalizing owed with
  | nil => rfl
  | cons c t ih =>
    by_cases hc : isBlank c = true
    · rw [List.filter_cons_of_neg (by simp [hc]), ih, List.foldlM_cons, owe_of_isBlank hk hc]
      rfl
    · rw [List.filter_cons_of_pos (by simp [hc]), List.foldlM_cons, List.foldlM_cons]
      exact congrArg (owe kinds owed c >>= ·) (funext ih)

/-- Blanks do not matter. -/
theorem balanced_congr (hk : kinds ⊆ bracketKinds) {s t : Text} (h : words s = words t) :
    Balanced kinds s ↔ Balanced kinds t := by
  rw [Balanced, Balanced, ← foldlM_owe_filter hk [] s, ← foldlM_owe_filter hk []
    t, ← flatten_words, ← flatten_words, h]

/-- What is owed further out stays owed. -/
theorem owe_append {owed later : Text} {c : Char} (h : owe kinds owed c = some later)
    (outer : Text) :
    owe kinds (owed ++ outer) c = some (later ++ outer) := by
  rw [owe] at h ⊢
  cases hl : kinds.lookup c with
  | some close =>
    rw [hl] at h
    rw [← Option.some.inj h]
    rfl
  | none =>
    rw [hl] at h
    dsimp only at h ⊢
    split at h
    · next closes =>
      rw [if_pos closes]
      split at h
      · next paid =>
        obtain ⟨others, rfl⟩ := List.head?_eq_some_iff.mp paid
        rw [← Option.some.inj h]
        exact if_pos rfl
      · exact absurd h (by simp)
    · next closes => rw [if_neg closes, Option.some.inj h]

theorem foldlM_owe_append {owed later t : Text} (h : t.foldlM (owe kinds) owed = some later)
    (outer : Text) :
    t.foldlM (owe kinds) (owed ++ outer) = some (later ++ outer) := by
  induction t generalizing owed with
  | nil =>
    rw [← Option.some.inj h]
    rfl
  | cons c t ih =>
    rw [List.foldlM_cons] at h ⊢
    obtain ⟨between, first, others⟩ := Option.bind_eq_some_iff.mp h
    rw [owe_append first outer]
    exact ih others

/-- Every closing bracket in a start of a balanced text is owed there. -/
theorem Balanced.exists_owed {s t : Text} (h : Balanced kinds t) (hs : s <+: t) :
    ∃ owed, s.foldlM (owe kinds) [] = some owed := by
  obtain ⟨rest, rfl⟩ := hs
  rw [Balanced, List.foldlM_append] at h
  obtain ⟨owed, start, -⟩ := Option.bind_eq_some_iff.mp h
  exact ⟨owed, start⟩

/-- The number of brackets of one kind that are owed is the depth at which they are counted. -/
theorem length_of_foldlM_owe {opens closes : Char} {depth : Nat → Char → Nat}
    (hd : ∀ n c, depth n c = if c = opens then n + 1 else if c = closes then n - 1 else n)
    {owed owed' t : Text} (h : t.foldlM (owe [(opens, closes)]) owed = some owed') :
    t.foldl depth owed.length = owed'.length := by
  induction t generalizing owed with
  | nil => rw [List.foldl_nil, Option.some.inj h]
  | cons c t ih =>
    rw [List.foldlM_cons] at h
    obtain ⟨between, first, later⟩ := Option.bind_eq_some_iff.mp h
    rw [List.foldl_cons, ← ih later]
    congr 1
    rw [hd]
    by_cases ho : c = opens
    · subst ho
      have owing : closes :: owed = between := by simpa [owe] using first
      rw [if_pos rfl, ← owing, List.length_cons]
    · have other : [(opens, closes)].lookup c = none := by
        rw [List.lookup_eq_none_iff]
        simpa using ho
      rw [owe, other] at first
      rw [if_neg ho]
      by_cases hc : c = closes
      · subst hc
        have paid : owed.head? = some c ∧ owed.tail = between := by simpa using first
        rw [if_pos rfl, ← paid.2, List.length_tail]
      · have kept : owed = between := by simpa [hc] using first
        rw [if_neg hc, kept]

end Balanced

/-! ### Pieces -/

/-- The first piece pays what is owed in front of it, and the others owe nothing. -/
def Pays (kinds : List (Char × Char)) (owed : Text) : List Text → Prop
  | [] => False
  | first :: others => first.foldlM (owe kinds) owed = some [] ∧ ∀ p ∈ others, Balanced kinds p

section Pieces

variable {kinds : List (Char × Char)}

theorem pays_nil_iff {pieces : List Text} (hn : pieces ≠ []) :
    Pays kinds [] pieces ↔ ∀ p ∈ pieces, Balanced kinds p := by
  cases pieces with
  | nil => exact absurd rfl hn
  | cons first others => simp [Pays, Balanced]

theorem pays_modifyHead_iff (owed : Text) (c : Char) (pieces : List Text) :
    Pays kinds owed (pieces.modifyHead (c :: ·)) ↔ ∃ later, owe kinds owed c = some later ∧
      Pays kinds later pieces := by
  cases pieces with
  | nil => simp [Pays]
  | cons first others =>
    simp only [List.modifyHead_cons, Pays, List.foldlM_cons, Option.bind_eq_bind,
      Option.bind_eq_some_iff]
    exact ⟨fun ⟨⟨later, ho, hf⟩, hs⟩ => ⟨later, ho, hf, hs⟩, fun ⟨later, ho, hf, hs⟩ =>
      ⟨⟨later, ho, hf⟩, hs⟩⟩

theorem piecesFrom_ne_nil (depth : Nat) (t : Text) : piecesFrom depth t ≠ [] := by
  induction t generalizing depth with
  | nil => simp [piecesFrom]
  | cons c t ih =>
    rw [piecesFrom]
    split
    · exact List.cons_ne_nil _ _
    · simpa using ih _

/-- Every comma at which a text is cut stands where nothing is owed. -/
def CutsPaid (kinds : List (Char × Char)) (depth : Nat) (owed t : Text) : Prop :=
  ∀ u v, t = u ++ ',' :: v → u.foldl angleDepth depth = 0 → u.foldlM (owe kinds) owed = some []

/-- The pieces of a text owe nothing exactly if the whole owes nothing and neither does it at any
cut. -/
theorem pays_piecesFrom_iff (hk : kinds ⊆ bracketKinds) (depth : Nat) (owed t : Text) :
    Pays kinds owed (piecesFrom depth t) ↔ t.foldlM (owe kinds) owed = some [] ∧
      CutsPaid kinds depth owed t := by
  induction t generalizing depth owed with
  | nil => simp [piecesFrom, Pays, CutsPaid]
  | cons c t ih =>
    rw [piecesFrom]
    split
    · -- the text is cut here: all must be paid, and what follows starts anew
      next hc =>
      obtain ⟨rfl, rfl⟩ := hc
      rw [Pays, ← pays_nil_iff (piecesFrom_ne_nil 0 t), ih, List.foldlM_cons, owe_comma hk]
      constructor
      · rintro ⟨ho, whole, cuts⟩
        obtain rfl : owed = [] := Option.some.inj ho
        refine ⟨whole, fun u v hu hd => ?_⟩
        cases u with
        | nil => rfl
        | cons d u =>
          obtain ⟨rfl, rfl⟩ := List.cons.inj hu
          rw [List.foldlM_cons, owe_comma hk]
          exact cuts u v rfl hd
      · rintro ⟨whole, cuts⟩
        obtain rfl : owed = [] := Option.some.inj (cuts [] t rfl rfl)
        refine ⟨rfl, whole, fun u v hu hd => ?_⟩
        have paid := cuts (',' :: u) v (congrArg _ hu) hd
        rwa [List.foldlM_cons, owe_comma hk] at paid
    · next hc =>
      rw [pays_modifyHead_iff, List.foldlM_cons, Option.bind_eq_bind, Option.bind_eq_some_iff]
      constructor
      · rintro ⟨later, first, hp⟩
        obtain ⟨whole, cuts⟩ := (ih _ _).mp hp
        refine ⟨⟨later, first, whole⟩, fun u v hu hd => ?_⟩
        cases u with
        | nil =>
          obtain ⟨rfl, -⟩ := List.cons.inj hu
          exact absurd ⟨rfl, hd⟩ hc
        | cons d u =>
          obtain ⟨rfl, rfl⟩ := List.cons.inj hu
          rw [List.foldlM_cons, first]
          exact cuts u v rfl hd
      · rintro ⟨⟨later, first, whole⟩, cuts⟩
        refine ⟨later, first, (ih _ _).mpr ⟨whole, fun u v hu hd => ?_⟩⟩
        have paid := cuts (c :: u) v (congrArg _ hu) hd
        rwa [List.foldlM_cons, first] at paid

/-- The pieces of a balanced text are balanced exactly if every comma of angle depth zero stands
outside all brackets. -/
theorem balanced_pieces_iff (hk : kinds ⊆ bracketKinds) {t : Text} (hb : Balanced kinds t) :
    (∀ p ∈ piecesFrom 0 t, Balanced kinds p) ↔
      ∀ u v, t = u ++ ',' :: v → u.foldl angleDepth 0 = 0 → Balanced kinds u := by
  rw [← pays_nil_iff (piecesFrom_ne_nil 0 t), pays_piecesFrom_iff hk]
  exact and_iff_right hb

/-- No group in angle brackets is torn apart. -/
theorem balanced_angle_pieces {t : Text} (hb : Balanced [('<', '>')] t) :
    ∀ p ∈ piecesFrom 0 t, Balanced [('<', '>')] p := by
  refine (balanced_pieces_iff (by decide) hb).mpr fun u v hu hd => ?_
  obtain ⟨owed, start⟩ := hb.exists_owed (hu ▸ List.prefix_append u (',' :: v))
  have depth : u.foldl angleDepth 0 = owed.length := length_of_foldlM_owe (fun _ _ => rfl) start
  rw [Balanced, start, List.eq_nil_of_length_eq_zero (depth.symm.trans hd)]

end Pieces

/-! ### Entries -/

theorem forall_filter_ne_nil {P : Text → Prop} (hn : P []) (l : List Text) :
    (∀ e ∈ l.filter (· ≠ []), P e) ↔ ∀ e ∈ l, P e := by
  refine ⟨fun h e he => ?_, fun h e he => h e (List.mem_of_mem_filter he)⟩
  by_cases hz : e = []
  · exact hz ▸ hn
  · exact h e (List.mem_filter.mpr ⟨he, by simpa using hz⟩)

section Entries

variable {kinds : List (Char × Char)} (hk : kinds ⊆ bracketKinds)
include hk

theorem balanced_splitParameters_iff (t : Text) :
    (∀ e ∈ splitParameters t, Balanced kinds e) ↔ ∀ p ∈ piecesFrom 0 t, Balanced kinds p := by
  rw [splitParameters, forall_filter_ne_nil balanced_nil, List.forall_mem_map]
  exact forall₂_congr fun p _ => balanced_congr hk (words_trim p)

theorem balanced_splitClause_iff (t : Text) :
    (∀ e ∈ splitClause (some t), Balanced kinds e) ↔ ∀ p ∈ piecesFrom 0 t, Balanced kinds p := by
  rw [splitClause, forall_filter_ne_nil balanced_nil,
    List.forall_mem_map, ← balanced_splitParameters_iff hk]
  exact forall₂_congr fun e _ => balanced_congr hk (words_collapse e)

omit hk in
/-- The text of a parameter is all of it but the blanks around it. -/
theorem raw_parseParameter (language : Language) (t : Text) :
    (language.parseParameter t).raw = trim t := by
  cases language with
  | csharp => rfl
  | java =>
    show (Java.parseParameter t).raw = trim t
    simp only [Java.parseParameter]
    split
    · rfl
    · split
      · rfl
      · split <;> rfl

theorem balanced_parseParameters_iff (language : Language) (t : Text) :
    (∀ e ∈ (language.parseParameters t).map (·.raw), Balanced kinds e) ↔
      ∀ p ∈ piecesFrom 0 t, Balanced kinds p := by
  rw [Language.parseParameters, List.map_map,
    List.forall_mem_map, ← balanced_splitParameters_iff hk]
  refine forall₂_congr fun e _ => balanced_congr hk ?_
  rw [Function.comp_apply, raw_parseParameter, words_trim]

end Entries

/-! ### Lists of headers -/

/-- A list in a header of a text, as it stands there between its signs, and the entries that are
reported of it. -/
inductive Listed (t : Text) : Language → Text → List Text → Prop
  | parameters {language : Language} {header : MemberHeader}
      (h : header ∈ language.methodHeaders (mask language t) ∨
      header ∈ language.constructorHeaders (mask language t)) :
      Listed t language header.parameters ((language.parseParameters header.parameters).map (·.raw))
  | components {language : Language} {header : TypeHeader} {list : Text}
      (h : header ∈ language.typeHeaders (mask language t)) (hl : header.components = some list) :
      Listed t language list ((language.parseParameters list).map (·.raw))
  | throws {language : Language} {m : Match Slot} {clause : Text}
      (h : m ∈ language.methodMatches (mask language t) ∨
      m ∈ language.constructorMatches (mask language t))
      (hc : m.text? .throws = some clause) :
      Listed t language clause (MemberHeader.ofMatch m).throws
  | bases {m : Match Slot} {header : TypeHeader} {clause : Text}
      (h : m ∈ CSharp.typePattern.allMatches (mask .csharp t))
      (hh : CSharp.typeHeader? m = some header)
      (hc : m.text? .bases = some clause) : Listed t .csharp clause header.baseTypes
  | parents {m : Match Slot} {header : TypeHeader} {clause : Text}
      (h : m ∈ Java.typePattern.allMatches (mask .java t)) (hh : Java.typeHeader? m = some header)
      (hc : m.text? .parents = some clause) : Listed t .java clause header.parents
  | interfaces {m : Match Slot} {header : TypeHeader} {clause : Text}
      (h : m ∈ Java.typePattern.allMatches (mask .java t)) (hh : Java.typeHeader? m = some header)
      (hc : m.text? .interfaces = some clause) : Listed t .java clause header.interfaces
  | permitted {m : Match Slot} {header : TypeHeader} {clause : Text}
      (h : m ∈ Java.typePattern.allMatches (mask .java t)) (hh : Java.typeHeader? m = some header)
      (hc : m.text? .permitted = some clause) : Listed t .java clause header.permitted

theorem CSharp.baseTypes_of_typeHeader? {m : Match Slot} {header : TypeHeader}
    (h : CSharp.typeHeader? m = some header) :
    header.baseTypes = splitClause (m.text? .bases) := by
  rw [CSharp.typeHeader?] at h
  split at h
  · exact absurd h (by simp)
  · obtain ⟨word, -, h⟩ := Option.bind_eq_some_iff.mp h
    obtain ⟨kind, -, h⟩ := Option.bind_eq_some_iff.mp h
    rw [← Option.some.inj h]

theorem Java.clauses_of_typeHeader? {m : Match Slot} {header : TypeHeader}
    (h : Java.typeHeader? m = some header) :
    header.parents = splitClause (m.text? .parents) ∧
      header.interfaces = splitClause (m.text? .interfaces) ∧
      header.permitted = splitClause (m.text? .permitted) := by
  obtain ⟨kind, -, h⟩ := Option.bind_eq_some_iff.mp h
  rw [← Option.some.inj h]
  exact ⟨rfl, rfl, rfl⟩

/-- The entries of a list are its pieces but for blanks. -/
theorem Listed.balanced_iff {t : Text} {language : Language} {list : Text} {entries : List Text}
    (h : Listed t language list entries) {kinds : List (Char × Char)} (hk : kinds ⊆ bracketKinds) :
    (∀ e ∈ entries, Balanced kinds e) ↔ ∀ p ∈ piecesFrom 0 list, Balanced kinds p := by
  cases h with
  | parameters h => exact balanced_parseParameters_iff hk language _
  | components h hl => exact balanced_parseParameters_iff hk language _
  | throws h hc =>
    rw [← balanced_splitClause_iff hk, ← hc]
    rfl
  | bases h hh hc => rw [CSharp.baseTypes_of_typeHeader? hh, hc, balanced_splitClause_iff hk]
  | parents h hh hc => rw [(Java.clauses_of_typeHeader? hh).1, hc, balanced_splitClause_iff hk]
  | interfaces h hh hc => rw [(Java.clauses_of_typeHeader? hh).2.1, hc, balanced_splitClause_iff hk]
  | permitted h hh hc => rw [(Java.clauses_of_typeHeader? hh).2.2, hc, balanced_splitClause_iff hk]

/-- Of a list that is balanced in angle brackets every entry is so. For any of the three kinds of
brackets together, the entries of a balanced list are balanced exactly if every comma of angle depth
zero stands outside all brackets of these kinds. -/
theorem Listed.balanced_entries_iff {t : Text} {language : Language} {list : Text}
    {entries : List Text} (h : Listed t language list entries) :
    (Balanced [('<', '>')] list → ∀ e ∈ entries, Balanced [('<', '>')] e) ∧
      ∀ kinds, kinds ⊆ bracketKinds → Balanced kinds list →
        ((∀ e ∈ entries, Balanced kinds e) ↔
          ∀ u v, list = u ++ ',' :: v → u.foldl angleDepth 0 = 0 → Balanced kinds u) := by
  refine ⟨fun hb => ?_, fun kinds hk hb => ?_⟩
  · rw [h.balanced_iff (by decide)]
    exact balanced_angle_pieces hb
  · rw [h.balanced_iff hk]
    exact balanced_pieces_iff hk hb

/-- A map with two type arguments and an array with an annotation of one argument. -/
def keptSource : Text :=
  "class A \x7b void m(Map<K, V[]> m, @Size(1) int[] x) \x7b \x7d \x7d".toList

def keptList : Text := "Map<K, V[]> m, @Size(1) int[] x".toList

def keptEntries : List Text := ["Map<K, V[]> m".toList, "@Size(1) int[] x".toList]

theorem Listed.balanced_keptEntries :
    Listed keptSource .java keptList keptEntries ∧
      Balanced [('<', '>')] keptList ∧ (∀ e ∈ keptEntries, Balanced [('<', '>')] e) ∧
      Balanced bracketKinds keptList ∧
      ((∀ e ∈ keptEntries, Balanced bracketKinds e) ↔
        ∀ u v, keptList = u ++ ',' :: v → u.foldl angleDepth 0 = 0 → Balanced bracketKinds u) := by
  have found : ∃ header ∈ Java.methodHeaders (mask .java keptSource), header.parameters = keptList ∧
      (Language.java.parseParameters header.parameters).map (·.raw) = keptEntries := by
    decide +kernel
  obtain ⟨header, hm, hl, he⟩ := found
  have listed : Listed keptSource .java keptList keptEntries := hl ▸ he ▸ .parameters (.inl hm)
  have angles : Balanced [('<', '>')] keptList := by decide +kernel
  have whole : Balanced bracketKinds keptList := by decide +kernel
  obtain ⟨kept, cuts⟩ := listed.balanced_entries_iff
  exact ⟨listed, angles, kept angles, whole, cuts bracketKinds (List.Subset.refl _) whole⟩

/-- An annotation with two arguments. -/
def tornSource : Text := "class A { void m(@Size(min = 1, max = 2) String s) { } }".toList

/-- The arguments of an annotation are torn apart, though the list is balanced. -/
theorem exists_torn_parameter :
    (∃ header ∈ Java.methodHeaders (mask .java tornSource),
      Balanced bracketKinds header.parameters ∧
        (Language.java.parseParameters header.parameters).map (·.raw) =
          ["@Size(min = 1".toList, "max = 2) String s".toList] ∧
        ∃ p ∈ Language.java.parseParameters header.parameters, ¬Balanced bracketKinds p.raw) ∧
      (summarize .java [] tornSource).types.map
        (fun d => d.methods.map fun m => m.parameters.map (·.raw)) =
        [[["@Size(min = 1".toList, "max = 2) String s".toList]]] := by
  decide +kernel

end SourceSurvey.Source
