import SourceSurvey.Proofs.Clause
import SourceSurvey.Proofs.Method
import Mathlib.Data.List.Infix

/-! Parts of type headers. Behind the name of a type stand type parameters, components and clauses,
each of them optional and each read as short as what follows allows. What follows begins with a sign
behind blanks or with a key word between blanks, so a part goes on up to the first such place, and
where none stands inside the part it is read as it is written. -/

namespace SourceSurvey.Source

open Text Pattern

variable {here there : Cursor} {e e' : Ending Slot} {ps qs : List (Pattern Slot)}
  {signs signs' : Text} {keys keys' : List Text} {b v w t rest : Text} {c : Char}

/-! ### Where a part begins -/

/-- What the rest of a header begins with: one of some signs with or without blanks in front of it,
or one of some key words with blanks on both sides. -/
def Opens (signs : Text) (keys : List Text) (t : Text) : Prop :=
  (∃ b c y, Blank b ∧ c ∈ signs ∧ t = b ++ c :: y) ∨
    ∃ b w g y, (Blank b ∧ b ≠ []) ∧ w ∈ keys ∧ isBlank g = true ∧ t = b ++ (w ++ g :: y)

/-- The signs and key words by which the parts of a header are told apart. -/
structure Marked (signs : Text) (keys : List Text) : Prop where
  noWord : ∀ c ∈ signs, isWord c = false
  noBlank : ∀ c ∈ signs, isBlank c = false
  words : ∀ w ∈ keys, isIdentifier w = true

theorem Opens.mono (h : Opens signs keys t) (hs : signs ⊆ signs') (hk : keys ⊆ keys') :
    Opens signs' keys' t := by
  rcases h with ⟨b, c, y, hb, hc, rfl⟩ | ⟨b, w, g, y, hb, hw, hg, rfl⟩
  · exact .inl ⟨b, c, y, hb, hs hc, rfl⟩
  · exact .inr ⟨b, w, g, y, hb, hk hw, hg, rfl⟩

theorem opens_sign (hb : Blank b) (hc : c ∈ signs) (rest : Text) :
    Opens signs keys (b ++ c :: rest) :=
  .inl ⟨b, c, rest, hb, hc, rfl⟩

theorem opens_key {gap : Text} (hb : Blank b) (hn : b ≠ []) (hw : w ∈ keys) (hg : Blank gap)
    (hg' : gap ≠ []) (rest : Text) : Opens signs keys (b ++ (w ++ (gap ++ rest))) := by
  obtain ⟨g, gap, rfl⟩ := List.exists_cons_of_ne_nil hg'
  exact .inr ⟨b, w, g, gap ++ rest, ⟨hb, hn⟩, hw, hg g List.mem_cons_self, rfl⟩

/-- No word goes on where a part begins. -/
theorem Opens.noWord (h : Opens signs keys t) (hm : Marked signs keys) :
    ∀ d ∈ t.head?, isWord d = false := by
  rcases h with ⟨b, c, y, hb, hc, rfl⟩ | ⟨b, w, g, y, ⟨hb, hn⟩, -, -, rfl⟩
  · exact head?_blank_append_sign hb (hm.noWord c hc) y
  · intro d hd
    rw [List.head?_append_of_ne_nil _ hn] at hd
    exact isWord_of_isBlank (hb d (List.mem_of_mem_head? hd))

/-- Behind its blanks a part begins with one of the signs or with a letter. -/
theorem Opens.mem_or_isWord {y : Text} (h : Opens signs keys t)
    (hm : Marked signs keys) (hb : Blank b)
    (hc : isBlank c = false) (ht : t = b ++ c :: y) : c ∈ signs ∨ isWord c = true := by
  subst ht
  rcases h with ⟨b', c', y', hb', hc', h⟩ | ⟨b', w, g, y', ⟨hb', -⟩, hw, -, h⟩
  · rw [(blank_append_cons_inj hb hb' hc (hm.noBlank c' hc') h).1]
    exact .inl hc'
  · have name := hm.words w hw
    obtain ⟨d, w, rfl⟩ := List.exists_cons_of_ne_nil (ne_nil_of_isIdentifier name)
    have hd := solid_of_isIdentifier name d List.mem_cons_self
    rw [(blank_append_cons_inj hb hb' hc hd h).1]
    exact .inr (isWord_of_isIdentifier name d List.mem_cons_self)

theorem head?_words (hb : Blank b) (hw : Solid w) (hn : w ≠ [])
    (ht : ∀ c ∈ t.head?, isBlank c = true) :
    (words (b ++ (w ++ t))).head? = some w := by
  rw [words_blank_append hb]
  cases t with
  | nil => rw [List.append_nil, words_solid hw hn, List.head?_cons]
  | cons g t =>
    have gap : Blank [g] := fun d hd => List.mem_singleton.mp hd ▸ ht g rfl
    have split := words_append_gap gap (by simp) w t
    rw [List.singleton_append] at split
    rw [split, words_solid hw hn, List.singleton_append, List.head?_cons]

/-- No part begins in a text that holds none of the signs, unless its first word is one of the key
words. -/
theorem not_opens (hm : Marked signs keys) (hv : ¬Blank v) (hs : ∀ c ∈ v, c ∉ signs)
    (hr : ∀ c ∈ rest.head?, isWord c = false)
    (hw : v.head?.any isBlank = true → ∀ w ∈ (words v).head?, w ∉ keys) :
    ¬Opens signs keys (v ++ rest) := by
  obtain ⟨b, d, x, rfl, hb, hd⟩ := exists_eq_blank_append hv
  rintro (⟨b', c, y, hb', hc, h⟩ | ⟨b', w, g, y, ⟨hb', hn⟩, hkey, hg, h⟩)
  · rw [List.append_assoc] at h
    rw [← (blank_append_cons_inj hb hb' hd (hm.noBlank c hc) h).1] at hc
    exact hs d (by simp) hc
  · have name := hm.words w hkey
    have solid := solid_of_isIdentifier name
    obtain ⟨a, w', rfl⟩ := List.exists_cons_of_ne_nil (ne_nil_of_isIdentifier name)
    have ha := solid a List.mem_cons_self
    rw [List.append_assoc, List.cons_append, List.cons_append] at h
    obtain ⟨rfl, hrest⟩ := blank_append_cons_inj hb hb' hd ha h
    have blanks : b = b' := by
      rw [hrest] at h
      exact List.append_cancel_right h
    subst blanks
    -- the key word ends inside the text: behind the text no word goes on
    obtain ⟨z, rfl, hz⟩ : ∃ z, x = w' ++ z ∧ ∀ c ∈ z.head?, isBlank c = true := by
      rcases List.append_eq_append_iff.mp hrest with ⟨z, rfl, hz⟩ | ⟨z, rfl, hz⟩
      · cases z with
        | nil => exact ⟨[], by simp, by simp⟩
        | cons c z =>
          have inside := isWord_of_isIdentifier name c (by simp)
          rw [hr c (by simp [hz])] at inside
          exact absurd inside (by simp)
      · refine ⟨z, rfl, fun c hc => ?_⟩
        obtain ⟨z', rfl⟩ := List.head?_eq_some_iff.mp hc
        rw [← (List.cons.inj hz).1]
        exact hg
    have first : (words (b ++ d :: (w' ++ z))).head? = some (d :: w') :=
      head?_words hb solid (by simp) hz
    refine hw ?_ _ first hkey
    obtain ⟨f, b, rfl⟩ := List.exists_cons_of_ne_nil hn
    simpa using hb f List.mem_cons_self

theorem mem_words_of_append {a : Text} (hv : v.head?.any isBlank = true) (hw : w ∈ words v) :
    w ∈ words (a ++ v) := by
  cases v with
  | nil => exact absurd hv (by simp)
  | cons g v =>
    have gap : Blank [g] := fun d hd => by
      rw [List.mem_singleton.mp hd]
      simpa using hv
    have split := words_append_gap gap (by simp) a v
    have front := words_append_gap gap (by simp) [] v
    rw [words_nil, List.nil_append, List.nil_append, List.singleton_append] at front
    rw [List.singleton_append] at split
    rw [split]
    exact List.mem_append_right _ (front ▸ hw)

theorem Marked.cons (h : Marked signs keys) (hc : IsSign c) : Marked (c :: signs) keys where
  noWord := List.forall_mem_cons.mpr ⟨hc.noWord, h.noWord⟩
  noBlank := List.forall_mem_cons.mpr ⟨hc.noBlank, h.noBlank⟩
  words := h.words

/-! ### Optional parts -/

/-- Every reading of a pattern begins where a part does. -/
def OpensWith (p : Pattern Slot) (signs : Text) (keys : List Text) : Prop :=
  ∀ here e there e', p.Leads here e there e' → Opens signs keys here.rest

theorem OpensWith.of_run {p : Pattern Slot} {next : Next Slot} (hp : OpensWith p signs keys)
    (h : p.run here next = some e) :
    Opens signs keys here.rest := by
  obtain ⟨there, e', -, hl⟩ := exists_leads_of_run h
  exact hp _ _ _ _ hl

theorem leads_optional_cons {p : Pattern Slot}
    (h : (all (optional p :: ps)).Leads here e there e') :
    (∃ mid m, p.Leads here e mid m ∧ (all ps).Leads mid m there e') ∨
      (all ps).Leads here e there e' := by
  obtain ⟨_, _, h, h'⟩ := leads_all_cons.mp h
  cases h with
  | left h => exact .inl ⟨_, _, h, h'⟩
  | right h =>
    cases h
    exact .inr h'

/-- A part that is there is read, whatever could be read without it. -/
theorem run_optional_cons {p : Pattern Slot} {next : Next Slot}
    (h : p.run here (fun there => (all ps).run there next) = some e) :
    (all (optional p :: ps)).run here next = some e := by
  rw [run_all_cons, run_optional, h, Option.some_or]

theorem opens_of_leads_sign (hc : c ∈ signs)
    (h : (all (blanks :: sign c :: qs)).Leads here e there e') :
    Opens signs keys here.rest := by
  obtain ⟨_, _, hgap, h⟩ := leads_all_cons.mp h
  obtain ⟨_, _, hsign, -⟩ := leads_all_cons.mp h
  obtain ⟨b, hb, hr, rfl⟩ := leads_blanks hgap
  rw [hr, (leads_sign hsign).1]
  exact opens_sign hb hc _

theorem opens_of_leads_key (hw : w ∈ keys)
    (h : (all (someBlanks :: literal w :: someBlanks :: qs)).Leads here e there e') :
    Opens signs keys here.rest := by
  obtain ⟨_, _, hgap, h⟩ := leads_all_cons.mp h
  obtain ⟨_, _, hword, h⟩ := leads_all_cons.mp h
  obtain ⟨_, _, hgap', -⟩ := leads_all_cons.mp h
  obtain ⟨b, hb, hn, hr, rfl⟩ := leads_someBlanks hgap
  obtain ⟨hr', rfl⟩ := leads_literal hword
  obtain ⟨g, hg, hg', hr'', rfl⟩ := leads_someBlanks hgap'
  rw [hr, hr', hr'']
  exact opens_key hb hn hw hg hg' _

/-- A part that begins with a sign may be left out. -/
theorem OpensWith.sign_cons (h : OpensWith (all ps) signs keys) :
    OpensWith (all (optional (all (blanks :: sign c :: qs)) :: ps)) (c :: signs) keys := by
  intro here e there e' hl
  rcases leads_optional_cons hl with ⟨_, _, hl, -⟩ | hl
  · exact opens_of_leads_sign List.mem_cons_self hl
  · exact (h _ _ _ _ hl).mono (List.subset_cons_self ..) (List.Subset.refl _)

/-- A part that begins with a key word may be left out. -/
theorem OpensWith.key_cons (h : OpensWith (all ps) signs keys) :
    OpensWith (all (optional (all (someBlanks :: literal w :: someBlanks :: qs)) :: ps)) signs
      (w :: keys) := by
  intro here e there e' hl
  rcases leads_optional_cons hl with ⟨_, _, hl, -⟩ | hl
  · exact opens_of_leads_key List.mem_cons_self hl
  · exact (h _ _ _ _ hl).mono (List.Subset.refl _) (List.subset_cons_self ..)

/-- No part begins with a sign where the rest begins with something else. -/
theorem fails_sign_part (hm : Marked signs keys) (hc : IsSign c) (hn : c ∉ signs)
    (ho : Opens signs keys here.rest) :
    (all (blanks :: sign c :: qs)).Fails here := by
  refine fails_of_not_leads fun there e e' h => ?_
  have opens : Opens [c] [] here.rest := opens_of_leads_sign List.mem_cons_self h
  obtain ⟨b, d, y, hb, hd, hr⟩ :=
    opens.resolve_right (by rintro ⟨_, _, _, _, -, hw, -⟩; exact absurd hw (by simp))
  rw [List.mem_singleton.mp hd] at hr
  rcases ho.mem_or_isWord hm hb hc.noBlank hr with h | h
  · exact hn h
  · rw [hc.noWord] at h
    exact absurd h (by simp)

/-- No part begins with a key word where the rest begins with something else. -/
theorem fails_key_part (hm : Marked signs keys) (hk : isIdentifier w = true) (hw : w ∉ keys)
    (ho : Opens signs keys here.rest) :
    (all (someBlanks :: literal w :: someBlanks :: qs)).Fails here := by
  refine fails_of_not_leads fun there e e' h => ?_
  have opens : Opens [] [w] here.rest := opens_of_leads_key List.mem_cons_self h
  obtain ⟨b, w', g, y, ⟨hb, -⟩, hw', hg, hr⟩ :=
    opens.resolve_left (by rintro ⟨_, _, _, -, hc, -⟩; simp at hc)
  rw [List.mem_singleton.mp hw'] at hr
  have first : (words here.rest).head? = some w := by
    rw [hr]
    exact head?_words hb (solid_of_isIdentifier hk) (ne_nil_of_isIdentifier hk) (by simpa using hg)
  rcases ho with ⟨b', c, y', hb', hc, hr'⟩ | ⟨b', k, g', y', ⟨hb', -⟩, hk', hg', hr'⟩
  · obtain ⟨d, w, rfl⟩ := List.exists_cons_of_ne_nil (ne_nil_of_isIdentifier hk)
    have letter := isWord_of_isIdentifier hk d List.mem_cons_self
    have solid := solid_of_isIdentifier hk d List.mem_cons_self
    rw [hr] at hr'
    rw [(blank_append_cons_inj hb hb' solid (hm.noBlank c hc) hr').1, hm.noWord c hc] at letter
    exact absurd letter (by simp)
  · have name := hm.words k hk'
    rw [hr', head?_words hb' (solid_of_isIdentifier name) (ne_nil_of_isIdentifier name)
      (by simpa using hg')] at first
    exact hw (Option.some.inj first ▸ hk')

/-! ### Clauses -/

/-- The signs that no clause holds. -/
def clauseEnds : Text := ['{', ';']

/-- A text that neither begins nor ends with a blank. -/
structure Trimmed (t : Text) : Prop where
  ne_nil : t ≠ []
  first : ∀ c ∈ t.head?, isBlank c = false
  last : ∀ c ∈ t.getLast?, isBlank c = false

/-- What stands behind the key word or the sign of a clause: it holds no sign that ends a header and
no key word of a later clause. -/
structure IsClause (keys : List Text) (clause : Text) : Prop extends Trimmed clause where
  ends : ∀ c ∈ clause, c ∉ clauseEnds
  free : ∀ w ∈ words clause, w ∉ keys

/-- Behind a start of a clause that is not all of it nothing can follow. -/
theorem IsClause.not_opens {u : Text} (h : IsClause keys t) (hm : Marked signs keys)
    (hs : ∀ c ∈ t, c ∉ signs)
    (hr : ∀ c ∈ rest.head?, isWord c = false) (huv : u ++ v = t) (hv : v ≠ []) :
    ¬Opens signs keys (v ++ rest) := by
  refine Source.not_opens hm (not_blank_of_append h.last huv hv)
    (fun c hc => hs c (by simp [← huv, hc])) hr ?_
  intro hb w hw
  exact h.free w (huv ▸ mem_words_of_append hb (List.mem_of_mem_head? hw))

section Clause

variable {p : Pattern Slot} {clause : Text}

/-- A clause is read up to the place from which the rest of the header can be read. -/
theorem run_clause (slot : Slot) (h : IsClause keys clause) (hm : Marked signs keys)
    (hs : ∀ c ∈ clause, c ∉ signs) (hp : OpensWith p signs keys)
    (ht : ∀ c ∈ rest.head?, isWord c = false) (hr : here.rest = clause ++ rest)
    (he : p.run (here.beyond clause rest) stopHere = some e) :
    (lazyPlus (noneOf clauseEnds)).run here (fun there => p.run there stopHere) = some e ∧
      (mark slot (lazyPlus (noneOf clauseEnds))).run here (fun there => p.run there stopHere) =
        some (e.marked slot here (here.beyond clause rest)) := by
  obtain ⟨x, xs, rfl⟩ := List.exists_cons_of_ne_nil h.ne_nil
  have free : ∀ d ∈ x :: xs, (!clauseEnds.contains d) = true :=
    fun d hd => by simpa using h.ends d hd
  have early :
      ∀ u v, u ++ v = xs → v ≠ [] → p.run (here.beyond (x :: u) (v ++ rest)) stopHere = none := by
    intro u v huv hv
    refine run_eq_none fun there e e' hl => ?_
    have opens := hp _ _ _ _ hl
    exact absurd opens (h.not_opens hm hs ht (u := x :: u) (by rw [List.cons_append, huv]) hv)
  exact ⟨run_lazyPlus_one free hr early he, run_mark_lazyPlus_one free hr early he⟩

/-- A clause behind its key word, with the blanks around that word. -/
theorem prefers_key {gap : Text} (hb : Blank b ∧ b ≠ []) (hw : isIdentifier w = true)
    (hg : Blank gap ∧ gap ≠ [])
    (ht : ∀ c ∈ t.head?, isBlank c = false) (hr : here.rest = b ++ (w ++ (gap ++ t))) :
    (someBlanks : Pattern Slot).Prefers here (here.beyond b (w ++ (gap ++ t))) ∧
      (literal w : Pattern Slot).Prefers (here.beyond b (w ++ (gap ++ t)))
      (here.beyond (b ++ w) (gap ++ t)) ∧
      (someBlanks : Pattern Slot).Prefers (here.beyond (b ++ w) (gap ++ t))
      (here.beyond (b ++ w ++ gap) t) := by
  have word : (literal w : Pattern Slot).Prefers (here.beyond b (w ++ (gap ++ t))) _ :=
    prefers_literal rfl
  have gap' : (someBlanks : Pattern Slot).Prefers (here.beyond (b ++ w) (gap ++ t)) _ :=
    prefers_someBlanks hg.1 hg.2 rfl ht
  rw [Cursor.beyond_beyond] at word gap'
  refine ⟨prefers_someBlanks hb.1 hb.2 hr fun d hd => ?_, word, gap'⟩
  rw [List.head?_append_of_ne_nil _ (ne_nil_of_isIdentifier hw)] at hd
  exact solid_of_isIdentifier hw d (List.mem_of_mem_head? hd)

end Clause

/-! ### Lists of supertypes -/

theorem trimmed_intercalate {ts : List Text} (sep : Text) (h : ∀ t ∈ ts, Trimmed t) (hn : ts ≠ []) :
    Trimmed (sep.intercalate ts) := by
  induction ts with
  | nil => exact absurd rfl hn
  | cons t ts ih =>
    have front := h t List.mem_cons_self
    cases ts with
    | nil => rwa [List.intercalate_singleton]
    | cons s ts =>
      have later := ih (fun u hu => h u (List.mem_cons_of_mem t hu)) (by simp)
      rw [List.intercalate_cons_cons, List.append_assoc]
      refine ⟨by simp [front.ne_nil], fun c hc => ?_, fun c hc => ?_⟩
      · rw [List.head?_append_of_ne_nil _ front.ne_nil] at hc
        exact front.first c hc
      · rw [← List.append_assoc, List.getLast?_append_of_ne_nil _ later.ne_nil] at hc
        exact later.last c hc

theorem trimmed_of_collapse (h : collapse t = t) (hn : t ≠ []) : Trimmed t := by
  rw [← h]
  refine trimmed_intercalate [' '] (fun w hw => ?_) fun hw => hn ?_
  · obtain ⟨solid, ne⟩ := solid_of_mem_words hw
    exact ⟨ne, fun c hc => solid c (List.mem_of_mem_head? hc), fun c hc =>
      solid c (List.mem_of_getLast? hc)⟩
  · rw [← h, collapse, hw]
    rfl

theorem mem_wordsFrom_append_sign {a : Text} (hc : isBlank c = false)
    (hw : w ∈ wordsFrom a (t ++ [c])) :
    w ∈ wordsFrom a t ∨ c ∈ w := by
  induction t generalizing a with
  | nil =>
    rw [List.nil_append, wordsFrom_cons hc] at hw
    obtain ⟨d, a', ha⟩ := List.exists_cons_of_ne_nil (List.concat_ne_nil c a)
    rw [ha, wordsFrom_cons_nil, List.mem_singleton, ← ha] at hw
    exact .inr (by simp [hw])
  | cons d t ih =>
    by_cases hd : isBlank d = true
    · rw [List.cons_append, wordsFrom_blank hd, List.mem_append] at hw
      rw [wordsFrom_blank hd, List.mem_append]
      rcases hw with hw | hw
      · exact .inl (.inl hw)
      · exact (ih hw).imp_left .inr
    · rw [Bool.not_eq_true] at hd
      rw [List.cons_append, wordsFrom_cons hd] at hw
      rw [wordsFrom_cons hd]
      exact ih hw

/-- A comma behind a word makes it another word, but none of the key words. -/
theorem mem_words_intercalate {ts : List Text} (hk : isIdentifier w = true)
    (hw : w ∈ words ([',', ' '].intercalate ts)) : ∃ t ∈ ts, w ∈ words t := by
  induction ts with
  | nil => exact absurd hw List.not_mem_nil
  | cons t ts ih =>
    cases ts with
    | nil => exact ⟨t, List.mem_cons_self, by rwa [List.intercalate_singleton] at hw⟩
    | cons s ts =>
      have split : words ([',', ' '].intercalate (t :: s :: ts)) =
          words (t ++ [',']) ++ words ([',', ' '].intercalate (s :: ts)) := by
        rw [← words_append_gap (b := [' ']) (by decide) (by simp), List.intercalate_cons_cons]
        simp
      rw [split, List.mem_append] at hw
      rcases hw with hw | hw
      · have noComma : ',' ∉ w := fun hc => by
          have := isWord_of_isIdentifier hk ',' hc
          exact absurd this (by decide)
        exact ⟨t, List.mem_cons_self,
          (mem_wordsFrom_append_sign (by decide) hw).resolve_right noComma⟩
      · obtain ⟨u, hu, hw⟩ := ih hw
        exact ⟨u, List.mem_cons_of_mem t hu, hw⟩

/-- A supertype of a list: its blanks are single spaces inside it, its commas stand inside angle
brackets, and none of its words begins a later clause. -/
structure IsSupertype (keys : List Text) (t : Text) : Prop where
  ne_nil : t ≠ []
  normal : collapse t = t
  entry : isEntry t = true
  ends : ∀ c ∈ t, c ∉ clauseEnds
  free : ∀ w ∈ words t, w ∉ keys

instance (keys : List Text) (t : Text) : Decidable (IsSupertype keys t) :=
  decidable_of_iff ((t ≠ [] ∧ collapse t = t) ∧ isEntry t = true ∧ (∀ c ∈ t, c ∉ clauseEnds) ∧
    ∀ w ∈ words t, w ∉ keys)
    ⟨fun ⟨⟨ne, normal⟩, entry, ends, free⟩ => ⟨ne, normal, entry, ends, free⟩,
      fun h => ⟨⟨h.ne_nil, h.normal⟩, h.entry, h.ends, h.free⟩⟩

section Supertypes

variable {ts : List Text}

/-- Supertypes as they are written in a list. -/
def listed (ts : List Text) : Text := [',', ' '].intercalate ts

/-- The space behind a comma goes to the entry behind it. -/
theorem listed_cons (t : Text) (ts : List Text) :
    listed (t :: ts) = [','].intercalate (t :: ts.map (' ' :: ·)) := by
  unfold listed
  induction ts generalizing t with
  | nil => rfl
  | cons s ts ih =>
    rw [List.intercalate_cons_cons, ih, List.map_cons, List.intercalate_cons_cons]
    cases ts <;> simp [List.intercalate_cons_cons]

theorem mem_listed (h : c ∈ listed ts) : c ∈ [',', ' '] ∨ ∃ t ∈ ts, c ∈ t := mem_intercalate h

theorem IsSupertype.trimmed (h : IsSupertype keys t) : Trimmed t :=
  trimmed_of_collapse h.normal h.ne_nil

theorem isClause_listed (hk : ∀ w ∈ keys, isIdentifier w = true) (h : ∀ t ∈ ts, IsSupertype keys t)
    (hn : ts ≠ []) :
    IsClause keys (listed ts) := by
  refine ⟨trimmed_intercalate _ (fun t ht => (h t ht).trimmed) hn, fun c hc =>
    ?_, fun w hw hkey => ?_⟩
  · rcases mem_listed hc with hc | ⟨t, ht, hc⟩
    · rcases List.mem_pair.mp hc with rfl | rfl <;> decide
    · exact (h t ht).ends c hc
  · obtain ⟨t, ht, hw⟩ := mem_words_intercalate (hk w hkey) hw
    exact (h t ht).free w hw hkey

theorem IsSupertype.not_blank (h : IsSupertype keys t) : ¬Blank t :=
  not_blank_of_append h.trimmed.last (List.nil_append t) h.ne_nil

theorem IsSupertype.space (h : IsSupertype keys t) :
    isEntry (' ' :: t) = true ∧ ¬Blank (' ' :: t) :=
  ⟨isEntryFrom_cons.mpr ⟨by simp, h.entry⟩, fun hb => h.not_blank fun c hc =>
    hb c (List.mem_cons_of_mem ' ' hc)⟩

/-- A list of supertypes is read back as it is. -/
theorem splitClause_listed (h : ∀ t ∈ ts, IsSupertype keys t) :
    splitClause (some (listed ts)) = ts := by
  cases ts with
  | nil => rfl
  | cons t ts =>
    have front := h t List.mem_cons_self
    have behind : ∀ s ∈ ts, IsSupertype keys s := fun s hs => h s (List.mem_cons_of_mem t hs)
    have entries : ∀ u ∈ t :: ts.map (' ' :: ·), isEntry u = true ∧ ¬Blank u := by
      intro u hu
      rcases List.mem_cons.mp hu with rfl | hu
      · exact ⟨front.entry, front.not_blank⟩
      · obtain ⟨s, hs, rfl⟩ := List.mem_map.mp hu
        exact (behind s hs).space
    have normal : ts.map (collapse ∘ (' ' :: ·)) = ts := by
      refine (List.map_congr_left fun s hs => ?_).trans (List.map_id ts)
      exact (collapse_blank_append (b := [' ']) (by decide) s).trans (behind s hs).normal
    rw [listed_cons, splitClause_intercalate entries, List.map_cons, front.normal,
      List.map_map, normal]

end Supertypes

/-! ### Clauses as they are written -/

/-- A clause of supertypes: the blanks around what it begins with, and the supertypes, none where
there is no such clause. -/
structure ClauseText where
  before : Text
  after : Text
  supertypes : List Text

namespace ClauseText

/-- The clause behind its key word or sign. -/
def text (lead : Text) (c : ClauseText) : Text :=
  if c.supertypes = [] then [] else c.before ++ (lead ++ (c.after ++ listed c.supertypes))

/-- The supertypes in one text. -/
def part? (c : ClauseText) : Option Text :=
  if c.supertypes = [] then none else some (listed c.supertypes)

/-- A clause as a text has it in front of parts that begin with the given key words. -/
structure IsWritten (keys : List Text) (c : ClauseText) : Prop where
  before : Blank c.before
  after : Blank c.after
  supertypes : ∀ t ∈ c.supertypes, IsSupertype keys t

end ClauseText

section ClauseText

variable {clause : ClauseText} {parts : Slot → Option Text}

theorem splitClause_part? (h : clause.IsWritten keys) :
    splitClause clause.part? = clause.supertypes := by
  rw [ClauseText.part?]
  split
  · next hn => rw [hn, splitClause]
  · exact splitClause_listed h.supertypes

/-- A part that is not there is told as missing. -/
theorem tells_of_absent {slot : Slot} (h : e.Tells parts) (hn : parts slot = none) :
    e.Tells fun other => if other = slot then none else parts other := by
  intro first other
  rw [h first other]
  by_cases ho : other = slot
  · exact (ho ▸ hn).trans (if_pos ho).symm
  · exact (if_neg ho).symm

/-- A clause behind a key word is read with its supertypes, or passed over where there is none. -/
theorem exists_run_clauseAfter (slot : Slot) (h : clause.IsWritten keys)
    (hg : clause.before ≠ [] ∧ clause.after ≠ [])
    (hm : Marked signs keys) (hs : signs ⊆ clauseEnds) (hk : isIdentifier w = true) (hw : w ∉ keys)
    (hp : OpensWith (all ps) signs keys) (hr : here.rest = clause.text w ++ rest)
    (he : (all ps).run (here.beyond (clause.text w) rest) stopHere = some e) (ht : e.Tells parts)
    (hn : parts slot = none) :
    ∃ e', (all (clauseAfter w slot :: ps)).run here stopHere = some e' ∧
      e'.Tells fun other => if other = slot then clause.part? else parts other := by
  have opens := hp.of_run he
  rw [ClauseText.text] at hr he
  rw [ClauseText.part?]
  split at hr
  · next ho =>
    simp only [if_pos ho, List.nil_append] at hr he ⊢
    rw [← hr, Cursor.beyond_nil] at he
    have absent :
        (all [someBlanks, literal w, someBlanks, mark slot (lazyPlus (noneOf clauseEnds))]).Fails
          here :=
      fails_key_part hm hk hw (hr ▸ opens)
    exact ⟨e, (prefers_optional_of_fails absent).run_all he, tells_of_absent ht hn⟩
  · next ho =>
    simp only [if_neg ho, List.append_assoc] at hr he ⊢
    have list := isClause_listed hm.words h.supertypes ho
    obtain ⟨gap, word, gap'⟩ := prefers_key ⟨h.before, hg.1⟩ hk ⟨h.after, hg.2⟩
      (fun c hc => list.first c (by rwa [List.head?_append_of_ne_nil _ list.ne_nil] at hc)) hr
    have place :
        ((here.beyond (clause.before ++ w ++ clause.after)
          (listed clause.supertypes ++ rest)).beyond
        (listed clause.supertypes) rest) = here.beyond
          (clause.before ++ (w ++ (clause.after ++ listed clause.supertypes))) rest := by
      simp
    have supertypes := (run_clause slot list hm (fun c hc hc' => list.ends c hc (hs hc')) hp
      (opens.noWord hm) rfl (place ▸ he)).2
    exact ⟨_, run_optional_cons (gap.run_all (word.run_all (gap'.run_all supertypes))),
      ht.marked rfl⟩

end ClauseText

/-! ### The first header -/

theorem head?_filterMap_allMatches {p : Pattern Slot} {f : Match Slot → Option TypeHeader}
    {header : TypeHeader}
    (h : p.run (Cursor.ofText t) stopHere = some e) (hf : f ⟨Cursor.ofText t, e⟩ = some header) :
    ((p.allMatches t).filterMap f).head? = some header := by
  have hm : p.matchAt (Cursor.ofText t) = some ⟨Cursor.ofText t, e⟩ := congrArg (Option.map _) h
  have first : (p.allMatches t).head? = some ⟨Cursor.ofText t, e⟩ := head?_matchesUnless hm rfl
  obtain ⟨later, hl⟩ := List.head?_eq_some_iff.mp first
  rw [hl, List.filterMap_cons, hf, List.head?_cons]

end SourceSurvey.Source
