import SourceSurvey.Proofs.Annotation
import SourceSurvey.Proofs.ByteOrderMark
import SourceSurvey.Proofs.LineFront
import SourceSurvey.Proofs.MaskJoin
import SourceSurvey.Proofs.Plain
import SourceSurvey.Proofs.WideHeader

/-! Annotated members. A search that comes to annotations in front of a declaration passes over them
and goes on as if the text in front of them had the declaration behind it: no header goes on into
the line, none begins in the annotations, and behind them a place is in no attribute and behind no
creation. So one annotation more on the line of a declaration changes nothing of what is reported
but the attributes that are looked for above. -/

namespace SourceSurvey

open Text Pattern

/-! ### Places within longer texts -/

theorem Cursor.IsIn.within {here : Cursor} {t : Text} (h : here.IsIn t) (front back : Text) :
    (here.within front back).IsIn (front ++ (t ++ back)) := by
  refine ⟨?_, ?_⟩
  · rw [Cursor.before_within, Cursor.rest_within, List.reverse_append, List.reverse_reverse,
      List.append_assoc, ← List.append_assoc here.before.reverse, h.1]
  · rw [Cursor.offset_within, Cursor.before_within, List.reverse_append, List.reverse_reverse,
      byteLength_append, h.2]

theorem Cursor.within_within (here : Cursor) (a b : Text) :
    (here.within b []).within a [] = here.within (a ++ b) [] := by
  simp [Cursor.within, byteLength_append, Nat.add_assoc]

namespace Pattern

variable {σ : Type} {p : Pattern σ} {x : Text} {refuses : Cursor → Bool} {m : Match σ}

theorem Match.within_within (m : Match σ) (a b : Text) :
    (m.within b []).within a [] = m.within (a ++ b) [] := by
  simp [Match.within, Ending.within, Cursor.within_within, Function.comp_def]

theorem Match.within_nil (m : Match σ) : m.within [] [] = m := by
  simp [Match.within, Ending.within, Cursor.within_nil]

theorem marksIn_of_mem {t : Text} (hm : m ∈ p.matchesUnless refuses t) : m.ending.MarksIn t := by
  obtain ⟨here, hh, hc⟩ := exists_matchAt_of_mem hm
  exact marksIn_of_matchAt hc (Cursor.isIn_of_mem_places hh)

/-- A match of a pattern that stays in a text starts in front of its end. -/
theorem Stays.start_lt (hs : Stays p x) (hm : m ∈ p.matchesUnless refuses x) :
    m.start < byteLength x := by
  obtain ⟨here, hh, hc⟩ := exists_matchAt_of_mem hm
  have place := Cursor.isIn_of_mem_places hh
  cases hr : here.rest with
  | nil => exact absurd hc (by simp [hs.matchAt_end hr])
  | cons c rest =>
    have some := c.utf8Size_pos
    rw [Match.start, first_of_matchAt hc, ← place.1, place.2, byteLength_append, hr, byteLength]
    omega

end Pattern

namespace Source

variable {a : Java.AnnotationText} {as : List Java.AnnotationText} {t u r x y : Text} {s : Char}

/-! ### Fronts of lines -/

/-- No square bracket stays open behind an annotation. -/
theorem Java.AnnotationText.IsWritten.squares (h : a.IsWritten) :
    a.text.foldl squareDepth 0 = 0 := by
  have front : ∀ c ∈ '@' :: a.path, c ∉ ['[', ']'] := by
    intro c hc
    rcases List.mem_cons.mp hc with rfl | hc
    · decide
    · rcases a.isWord_or_dot h hc with hw | rfl
      · exact notMem_squares_of_isWord hw
      · decide
  have split : a.text = ('@' :: a.path) ++ a.tail [] := rfl
  rw [split, List.foldl_append, foldl_squareDepth front, Java.AnnotationText.tail]
  cases hargs : a.arguments with
  | none =>
    rw [List.append_nil]
    exact foldl_squareDepth_blank h.gap.1 0
  | some p =>
    obtain ⟨b, inner⟩ := p
    obtain ⟨hb, hi⟩ := h.arguments _ hargs
    have opens : squareDepth 0 '(' = 0 := rfl
    have closes : squareDepth 0 ')' = 0 := rfl
    rw [List.append_nil, List.foldl_append, foldl_squareDepth_blank hb, List.foldl_cons, opens,
      List.foldl_append, hi.squares, List.foldl_cons, closes, foldl_squareDepth_blank h.gap.1]

theorem Java.AnnotationText.IsWritten.endsBlank (h : a.IsWritten) : EndsBlank a.text := by
  have ends : ∃ u, a.text = u ++ a.gap := by
    rw [Java.AnnotationText.text, Java.AnnotationText.tail]
    cases a.arguments with
    | none => exact ⟨'@' :: a.path, by simp⟩
    | some p => exact ⟨'@' :: (a.path ++ (p.1 ++ '(' :: (p.2 ++ [')']))), by simp⟩
  obtain ⟨u, hu⟩ := ends
  rw [hu]
  exact (endsBlank_of_blank h.gap.1 h.gap.2).append u

theorem Java.AnnotationText.IsWritten.quiet (h : a.IsWritten) : Quiet a.text := by
  have bound : lineDepth a.text ≤ a.text.foldl squareDepth 0 := lineDepth_append_le [] a.text
  rw [h.squares] at bound
  exact .of_blank (Nat.le_zero.mp bound) h.endsBlank

/-- Behind an annotation no creation is begun. -/
theorem Java.AnnotationText.IsWritten.no_creation (h : a.IsWritten) (t : Text) :
    createsBehind (t ++ a.text).reverse = false := by
  rw [List.reverse_append, Java.AnnotationText.text, Java.AnnotationText.tail]
  cases hargs : a.arguments with
  | some p =>
    have turned :
        ('@' :: (a.path ++ (p.1 ++ '(' :: (p.2 ++ ')' :: (a.gap ++ []))))).reverse ++ t.reverse =
        a.gap.reverse ++ ')' ::
          (p.2.reverse ++ '(' :: (p.1.reverse ++ (a.path.reverse ++ '@' :: t.reverse))) := by simp
    exact (congrArg _ turned).trans <| (createsBehind_blank_append h.gap.1.reverse _).trans <|
      createsBehind_sign (by decide) (by decide) (by decide) _
  | none =>
    have turned : ('@' :: (a.path ++ (a.gap ++ []))).reverse ++ t.reverse =
        a.gap.reverse ++ (a.name.reverse ++ '@' :: t.reverse) := by
      simp [Java.AnnotationText.path, h.single hargs]
    refine (congrArg _ turned).trans ((createsBehind_blank_append h.gap.1.reverse _).trans ?_)
    have word : wordBefore (a.name.reverse ++ '@' :: t.reverse) = wordBefore a.name.reverse :=
      congrArg List.reverse (takeWhile_append_cons_of_neg (by decide) _ _)
    -- the name ends in a character of a word, which is neither a blank nor a dot
    obtain ⟨c, u, hc⟩ :=
      List.exists_cons_of_ne_nil (List.reverse_ne_nil_iff.mpr (ne_nil_of_isIdentifier h.name))
    have letter : isWord c = true :=
      isWord_of_isIdentifier h.name c (List.mem_reverse.mp (hc ▸ List.mem_cons_self))
    have start :
        (a.name.reverse ++ '@' :: t.reverse).dropWhile isBlank = a.name.reverse ++
          '@' :: t.reverse := by
      rw [hc, List.cons_append, List.dropWhile_cons_of_neg (by simp [isBlank_of_isWord letter])]
    have noDot : c ≠ '.' := fun he => absurd (he ▸ letter) (by decide)
    rw [createsBehind, start, word, Bool.or_eq_false_iff]
    exact ⟨by simp [hc, noDot], by simpa using h.noCreation⟩

theorem Fresh.append_annotation (ht : Fresh t) (h : a.IsWritten) : Fresh (t ++ a.text) where
  squares := Nat.le_zero.mp <| by
    have bound := lineDepth_append_le t a.text
    rwa [ht.squares, h.squares] at bound
  blank := h.endsBlank.append t
  creation := h.no_creation t

/-- A text behind which a line begins on which no header is open, no attribute and no creation. -/
structure LineFront (t : Text) : Prop where
  settled : ∃ x s y, t = x ++ s :: y ∧ Settles x s y ∧ y ≠ []
  fresh : Fresh t

/-- Behind a settled text no creation is begun. -/
theorem Settles.no_creation (h : Settles x s y) : createsBehind (x ++ s :: y).reverse = false := by
  have ends : isNameCharacter s = false ∧ isBlank s = false ∧ s ≠ '.' := by
    rcases List.mem_pair.mp h.ends with rfl | rfl <;> decide
  rw [List.reverse_append, List.reverse_cons, List.append_assoc, List.singleton_append]
  rcases h.closed with hy | ⟨u, z, rfl, -, -, hz⟩
  · rw [createsBehind_blank_append hy.reverse]
    exact createsBehind_sign ends.1 ends.2.1 ends.2.2 _
  · rw [List.reverse_append, List.reverse_cons, List.append_assoc, List.append_assoc,
      createsBehind_blank_append hz.reverse]
    exact createsBehind_sign (by decide) (by decide) (by decide) _

/-- Behind a settled text a line may begin anew. -/
theorem Settles.lineFront (h : Settles x s y) {indent : Text} (hi : Blank indent) :
    LineFront ((x ++ s :: y) ++ '\n' :: indent) := by
  have gap : Blank ('\n' :: indent) := List.forall_mem_cons.mpr ⟨by decide, hi⟩
  have squares : lineDepth ((x ++ s :: y) ++ '\n' :: indent) = 0 := by
    rw [lineDepth, List.foldl_append, List.foldl_cons, if_pos rfl]
    exact Nat.le_zero.mp ((lineDepth_append_le [] indent).trans (foldl_squareDepth_blank hi 0).le)
  have creation : createsBehind ((x ++ s :: y) ++ '\n' :: indent).reverse = false := by
    rw [List.reverse_append, createsBehind_blank_append gap.reverse]
    exact h.no_creation
  exact ⟨⟨x, s, y ++ '\n' :: indent, by simp, h.append_blank gap, by simp⟩,
    squares, (endsBlank_of_blank gap (List.cons_ne_nil _ _)).append _, creation⟩

/-! ### Searches over annotations -/

/-- The texts of annotations one behind the other. -/
def annotationsText (as : List Java.AnnotationText) : Text := as.flatMap (·.text)

theorem annotationsText_cons (a : Java.AnnotationText) (as : List Java.AnnotationText) :
    annotationsText (a :: as) = a.text ++ annotationsText as := List.flatMap_cons

theorem annotationsText_concat (as : List Java.AnnotationText) (a : Java.AnnotationText) :
    annotationsText (as ++ [a]) = annotationsText as ++ a.text := by
  rw [annotationsText, List.flatMap_append, List.flatMap_singleton, annotationsText]

theorem declares_annotation (a : Java.AnnotationText) (r : Text) : Java.Declares (a.text ++ r) :=
  a.text_append r ▸ .of_sign (by decide) _

theorem declares_annotations (as : List Java.AnnotationText) (hr : Java.Declares r) :
    Java.Declares (annotationsText as ++ r) := by
  cases as with
  | nil => exact hr
  | cons a as =>
    rw [annotationsText_cons, List.append_assoc]
    exact declares_annotation a _

/-- A search that does not go on over the end of a settled text, and finds nothing in an annotation.
-/
structure Passes (p : Pattern Slot) (refuses : Cursor → Bool) : Prop where
  free : p.looksForLine = false
  stays : ∀ {x s y}, Settles x s y → y ≠ [] → Stays p (x ++ s :: y)
  skips : ∀ {a : Java.AnnotationText} {r : Text} {here : Cursor}, a.IsWritten → Java.Declares r →
    here.IsIn a.text →
    here.rest ≠ [] → p.matchAt (here.within [] r) = none ∨ refuses (here.within [] r) = true
  behind : ∀ {t}, Quiet t → ∀ here : Cursor, refuses (here.within t []) = refuses here
  ahead : ∀ r (here : Cursor), refuses (here.within [] r) = refuses here

theorem passes_type : Passes Java.typePattern fun _ => false where
  free := by decide
  stays h hy := h.stays hy (Java.shy_typePattern outside_isBlank) fun _ => Java.exists_outline_type
  skips h _ hin hn := .inl (Java.matchAt_type_annotation h hin hn _)
  behind _ _ := rfl
  ahead _ _ := rfl

theorem Java.IsMemberPattern.passes {p : Pattern Slot} (hp : Java.IsMemberPattern p) :
    Passes p fun place => endsInAttribute place.before where
  free := hp.free
  stays h hy := h.stays hy (hp.shy outside_isBlank) fun _ hw =>
    (hp.outline hw).imp fun _ ho => ⟨ho.1, ho.2.2⟩
  skips {_ r here} h hr hin hn := (hp.matchAt_annotation h hr hin hn).imp_right fun hm => by
    have reversed := endsInAttribute_reverse (here.within [] r).before.reverse
    rw [List.reverse_reverse, List.getLast?_reverse, Cursor.before_within, List.reverse_nil,
      List.append_nil, hm] at reversed
    rw [Cursor.before_within, List.reverse_nil, List.append_nil, reversed]
    rfl
  behind h here := h.endsInAttribute_eq here.before
  ahead _ here := by simp

section Passes

variable {p : Pattern Slot} {refuses : Cursor → Bool} (hp : Passes p refuses) (hr : Java.Declares r)
include hp hr

/-- A search finds nothing in annotations. -/
theorem Passes.matchesUnless_annotations (has : ∀ a ∈ as, a.IsWritten) :
    p.matchesUnless refuses (annotationsText as ++ r) =
      (p.matchesUnless refuses r).map (.within (annotationsText as) []) := by
  induction as with
  | nil =>
    have same : (Match.within (annotationsText []) [] : Match Slot → Match Slot) = id :=
      funext Match.within_nil
    rw [same, List.map_id]
    rfl
  | cons a as ih =>
    obtain ⟨ha, has⟩ := List.forall_mem_cons.mp has
    have same : (fun here => refuses (here.within a.text [])) = refuses :=
      funext (hp.behind ha.quiet)
    rw [annotationsText_cons, List.append_assoc,
        matchesUnless_skip hp.free ha.endsBlank.noWord fun here hin hn =>
      hp.skips ha (declares_annotations as hr) hin hn, same, ih has, List.map_map]
    exact List.map_congr_left fun m _ => m.within_within a.text _

omit hr in
theorem Passes.start_lt (ht : LineFront t) {m : Match Slot} (hm : m ∈ p.matchesUnless refuses t) :
    m.start < byteLength t := by
  obtain ⟨x, s, y, rfl, hx, hy⟩ := ht.settled
  exact (hp.stays hx hy).start_lt hm

/-- A search over a settled text, annotations and a declaration is one over the text and one over
the declaration. -/
theorem Passes.matchesUnless_eq (ht : LineFront t) (has : ∀ a ∈ as, a.IsWritten) :
    p.matchesUnless refuses (t ++ (annotationsText as ++ r)) =
      (p.matchesUnless refuses t).map (.within [] (annotationsText as ++ r)) ++
        (p.matchesUnless refuses r).map (.within (t ++ annotationsText as) []) := by
  have last := ht.fresh.blank.noWord
  have same : (fun here => refuses (here.within t [])) = refuses :=
    funext (hp.behind ht.fresh.quiet)
  obtain ⟨x, s, y, rfl, hx, hy⟩ := ht.settled
  rw [(hp.stays hx hy).matchesUnless_append hp.free last (hp.ahead _), same,
    hp.matchesUnless_annotations hr has, List.map_map]
  congr 1
  exact List.map_congr_left fun m _ => m.within_within _ _

end Passes

/-! ### Headers of a line -/

def MemberHeader.within (front back : Text) (h : MemberHeader) : MemberHeader :=
  { h with place := h.place.within front back }

def TypeHeader.within (front back : Text) (h : TypeHeader) : TypeHeader :=
  { h with place := h.place.within front back }

theorem Java.typeHeader?_within {m : Match Slot} (hm : m.ending.MarksIn t) (front back : Text) :
    Java.typeHeader? (m.within front back) = (Java.typeHeader? m).map (.within front back) := by
  have parts : (m.within front back).text? = m.text? := funext (Match.text?_within hm)
  rw [Java.typeHeader?, Java.typeHeader?]
  simp only [Match.text, parts]
  cases TypeKind.ofKeyword? ((m.text? .kind).getD []) <;> rfl

section Headers

variable (ht : LineFront t) (has : ∀ a ∈ as, a.IsWritten) (hr : Java.Declares r)
include ht has hr

theorem memberHeaders_annotations {p : Pattern Slot} (hp : Java.IsMemberPattern p) :
    memberHeaders p (t ++ (annotationsText as ++ r)) =
      (memberHeaders p t).map (.within [] (annotationsText as ++ r)) ++
        (memberHeaders p r).map (.within (t ++ annotationsText as) []) := by
  simp only [memberHeaders, hp.passes.matchesUnless_eq hr ht has, List.map_append, List.map_map]
  congr 1
  · exact List.map_congr_left fun m hm => ofMatch_within (marksIn_of_mem hm)
  · exact List.map_congr_left fun m hm => ofMatch_within (marksIn_of_mem hm)

theorem typeHeaders_annotations : Java.typeHeaders (t ++ (annotationsText as ++ r)) =
    (Java.typeHeaders t).map (.within [] (annotationsText as ++ r)) ++
      (Java.typeHeaders r).map (.within (t ++ annotationsText as) []) := by
  have moved : ∀ {u : Text} (front back : Text),
      ((Java.typePattern.allMatches u).map (.within front back)).filterMap Java.typeHeader? =
        ((Java.typePattern.allMatches u).filterMap Java.typeHeader?).map (.within front back) := by
    intro u front back
    rw [List.filterMap_map, List.map_filterMap]
    exact List.filterMap_congr fun m hm => Java.typeHeader?_within (marksIn_of_mem hm) front back
  rw [Java.typeHeaders, Java.typeHeaders, Java.typeHeaders, allMatches,
    passes_type.matchesUnless_eq hr ht has, List.filterMap_append]
  exact congrArg₂ _ (moved _ _) (moved _ _)

end Headers

/-- The line of a place is told by the newlines in front of it. -/
theorem lineOf_of_isIn {here : Cursor} (h : here.IsIn t) :
    (LineTable.ofText t).lineOf here.offset = 1 + here.before.count '\n' := by
  rw [lineOf_ofText, ← h.1, h.2, newlinesBefore_append, List.count_reverse]

theorem Fresh.append_annotations (ht : Fresh t) (has : ∀ a ∈ as, a.IsWritten) :
    Fresh (t ++ annotationsText as) := by
  induction as generalizing t with
  | nil => rwa [annotationsText, List.flatMap_nil, List.append_nil]
  | cons a as ih =>
    obtain ⟨ha, has⟩ := List.forall_mem_cons.mp has
    rw [annotationsText_cons, ← List.append_assoc]
    exact ih (ht.append_annotation ha) has

theorem forall₂_map_append {α : Type} {R : α → α → Prop} {f f' g g' : α → α} {l l' : List α}
    (h : ∀ b ∈ l, R (f b) (f' b)) (h' : ∀ b ∈ l', R (g b) (g' b)) :
    List.Forall₂ R (l.map f ++ l'.map g) (l.map f' ++ l'.map g') := by
  have side : ∀ {l : List α} {f f' : α → α}, (∀ b ∈ l, R (f b) (f' b)) →
      List.Forall₂ R (l.map f) (l.map f') := by
    intro l f f' h
    rw [List.forall₂_map_left_iff, List.forall₂_map_right_iff, List.forall₂_same]
    exact h
  exact List.rel_append (side h) (side h')

section Types

/-- The places of a text by those of the text with something more behind the front. -/
def moveBehind (front more : Text) (offset : Nat) : Nat :=
  if offset < byteLength front then offset else offset + byteLength more

theorem moveBehind_le_iff (front more : Text) (m n : Nat) :
    moveBehind front more m ≤ moveBehind front more n ↔ m ≤ n := by
  rw [moveBehind, moveBehind]
  split <;> split <;> omega

/-- Two places of two texts that are on the same line and at offsets that answer each other. -/
structure Answers (front more u u' : Text) (here here' : Cursor) : Prop where
  line : (LineTable.ofText u).lineOf here.offset = (LineTable.ofText u').lineOf here'.offset
  offset : here'.offset = moveBehind front more here.offset

variable {more v v' : Text} {here : Cursor}

theorem answers_front (h : here.IsIn t) (hl : here.offset < byteLength t) :
    Answers t more (t ++ v) (t ++ v') (here.within [] v) (here.within [] v') where
  line := by
    have line := lineOf_of_isIn (h.within [] v)
    have line' := lineOf_of_isIn (h.within [] v')
    exact line.trans line'.symm
  offset := by
    have start : ∀ u, (here.within [] u).offset = here.offset := fun u => Nat.zero_add _
    rw [start, start, moveBehind, if_pos hl]

theorem answers_behind (h : here.IsIn r) (hn : '\n' ∉ more) (front : Text) :
    Answers t more (t ++ (front ++ r)) (t ++ (front ++ (more ++ r))) (here.within (t ++ front) [])
      (here.within (t ++ (front ++ more)) []) where
  line := by
    have line := lineOf_of_isIn (h.within (t ++ front) [])
    have line' := lineOf_of_isIn (h.within (t ++ (front ++ more)) [])
    have count : (here.within (t ++ (front ++ more)) []).before.count '\n' =
        (here.within (t ++ front) []).before.count '\n' := by
      simp [List.count_append, List.count_eq_zero.mpr hn]
    rw [count] at line'
    simp only [List.append_nil, List.append_assoc] at line line'
    exact line.trans line'.symm
  offset := by
    rw [moveBehind, if_neg] <;> simp only [Cursor.offset_within, byteLength_append] <;> omega

/-- Two member headers that are told apart by their places alone. -/
structure MemberAnswers (front more u u' : Text) (m m' : MemberHeader) : Prop where
  same : m' = { m with place := m'.place }
  creation : isCreationLike m = isCreationLike m'
  place : Answers front more u u' m.place m'.place

variable (ht : LineFront t) (has : ∀ a ∈ as, a.IsWritten) (ha : a.IsWritten) (hn : '\n' ∉ a.text)
  (hr : Java.Declares r)
include ht has ha hn hr

theorem memberHeaders_answer {p : Pattern Slot} (hp : Java.IsMemberPattern p) :
    List.Forall₂
      (MemberAnswers t a.text (t ++ (annotationsText as ++ r))
      (t ++ (annotationsText as ++ (a.text ++ r))))
      (memberHeaders p (t ++ (annotationsText as ++ r)))
        (memberHeaders p (t ++ (annotationsText as ++ (a.text ++ r)))) := by
  have has' : ∀ b ∈ as ++ [a], b.IsWritten :=
    List.forall_mem_append.mpr ⟨has, List.forall_mem_singleton.mpr ha⟩
  have longer := memberHeaders_annotations ht has' hr hp
  have calm' := (ht.fresh.append_annotations has').createsBehind_eq
  rw [annotationsText_concat] at calm'
  rw [annotationsText_concat, List.append_assoc] at longer
  rw [memberHeaders_annotations ht has hr hp, longer]
  refine forall₂_map_append (fun m hm => ⟨rfl, rfl, ?_⟩) fun m hm => ⟨rfl, ?_, ?_⟩
  · have place := Language.isIn_of_mem_memberHeaders t hm
    obtain ⟨n, hn, rfl⟩ := List.mem_map.mp hm
    exact answers_front place (hp.passes.start_lt ht hn)
  · exact ((ht.fresh.append_annotations has).createsBehind_eq m.place.before).trans
      (calm' m.place.before).symm
  · exact answers_behind (Language.isIn_of_mem_memberHeaders r hm) hn (annotationsText as)

/-- Two type headers that are told apart by their places alone. -/
structure TypeAnswers (front more u u' : Text) (h h' : TypeHeader) : Prop where
  same : h' = { h with place := h'.place }
  place : Answers front more u u' h.place h'.place

theorem typeHeaders_answer :
    List.Forall₂
      (TypeAnswers t a.text (t ++ (annotationsText as ++ r))
      (t ++ (annotationsText as ++ (a.text ++ r))))
      (Java.typeHeaders (t ++ (annotationsText as ++ r)))
        (Java.typeHeaders (t ++ (annotationsText as ++ (a.text ++ r)))) := by
  have has' : ∀ b ∈ as ++ [a], b.IsWritten :=
    List.forall_mem_append.mpr ⟨has, List.forall_mem_singleton.mpr ha⟩
  have longer := typeHeaders_annotations ht has' hr
  rw [annotationsText_concat, List.append_assoc] at longer
  rw [typeHeaders_annotations ht has hr, longer]
  refine forall₂_map_append (fun h hh => ⟨rfl, ?_⟩) fun h hh => ⟨rfl, ?_⟩
  · have place := Language.isIn_of_mem_typeHeaders .java t hh
    obtain ⟨m, hm, hread⟩ := List.mem_filterMap.mp hh
    have start : h.place.offset = m.start := Java.start_of_typeHeader? hread
    exact answers_front place (start ▸ passes_type.start_lt ht hm)
  · exact answers_behind (Language.isIn_of_mem_typeHeaders .java r hh) hn (annotationsText as)

/-- One annotation more on the line of a declaration is seen in the attributes alone. -/
theorem types_annotated :
    (Site.ofMasked .java (t ++ (annotationsText as ++ r))).types.map View.unattributed.ofType =
      (Site.ofMasked .java (t ++ (annotationsText as ++ (a.text ++ r)))).types.map
        View.unattributed.ofType := by
  refine Site.map_types_eq (moveBehind_le_iff t a.text) ?_ ?_ ?_
  · refine (typeHeaders_answer ht has ha hn hr).imp ?_
    rintro h h' ⟨same, place⟩
    refine ⟨?_, place.offset⟩
    rw [same]
    simp only [View.ofType, Site.typeOf, Site.ofMasked, TypeHeader.start,
      View.unattributed, place.line]
  · have methods := memberHeaders_answer ht has ha hn hr Java.isMemberPattern_method
    refine (List.rel_filter (fun m m' h => ?_) methods).imp ?_
    · rw [h.same]
      rfl
    · rintro m m' ⟨same, -, place⟩
      refine ⟨?_, place.offset⟩
      rw [same]
      simp only [View.ofMethod, Site.methodOf, Site.ofMasked, MemberHeader.start,
        View.unattributed, place.line]
      rfl
  · refine (memberHeaders_answer ht has ha hn hr Java.isMemberPattern_constructor).imp ?_
    rintro c c' ⟨same, creation, place⟩
    refine ⟨⟨?_, creation⟩, place.offset⟩
    rw [same]
    simp only [View.ofConstructor, Site.constructorOf, Site.ofMasked, MemberHeader.start,
      View.unattributed, place.line]
    rfl

end Types

/-! ### The text itself -/

/-- A text that is an annotation once it is masked, and behind which code goes on. -/
structure IsAnnotation (t : Text) : Prop where
  code : standingAfter .java .code t = .code
  masked : ∃ a : Java.AnnotationText, a.IsWritten ∧ mask .java t = a.text

theorem endsNoSign_of_mask {c : Char} (hc : (mask .java t).head? = some c) (hb : isBlank c = false)
    (hs : c ∉ ['/', '*', '"', '$']) : EndsNoSign t := by
  rcases head?_maskFrom hc with h | rfl | rfl
  · rw [EndsNoSign, h]
    exact fun d hd => Option.mem_some_iff.mp hd ▸ hs
  · exact absurd hb (by decide)
  · exact absurd hb (by decide)

theorem endsNoSign_of_declares (h : Java.Declares (mask .java t)) : EndsNoSign t := by
  obtain ⟨c, rest, heq, hc⟩ := h.first
  have head : (mask .java t).head? = some c := by rw [heq]; rfl
  rcases hc with hc | hc
  · refine endsNoSign_of_mask head (isBlank_of_isNameStart hc) fun hm => ?_
    have none : ∀ c ∈ ['/', '*', '"', '$'], isNameStart c = false := by decide
    exact absurd hc (by simp [none c hm])
  · have free : ∀ c ∈ ['<', '@'], isBlank c = false ∧ c ∉ ['/', '*', '"', '$'] := by decide
    exact endsNoSign_of_mask head (free c hc).1 (free c hc).2

theorem IsAnnotation.mask_append (h : IsAnnotation t) (hr : EndsNoSign r) :
    mask .java (t ++ r) = mask .java t ++ mask .java r := maskFrom_join h.code hr

theorem IsAnnotation.endsNoSign (h : IsAnnotation t) (r : Text) : EndsNoSign (t ++ r) := by
  obtain ⟨a, -, ha⟩ := h.masked
  have start : EndsNoSign t :=
    endsNoSign_of_mask (c := '@') (by rw [ha]; rfl) (by decide) (by decide)
  cases t with
  | nil => exact absurd ha (by simp [mask, maskFrom, Java.AnnotationText.text])
  | cons c t => exact start

theorem endsNoSign_annotations {above : List Text} (h : ∀ t ∈ above, IsAnnotation t)
    (hr : EndsNoSign r) :
    EndsNoSign (above.flatten ++ r) := by
  cases above with
  | nil => exact hr
  | cons t above =>
    rw [List.flatten_cons, List.append_assoc]
    exact (h t List.mem_cons_self).endsNoSign _

/-- Annotations in front of a text are masked one by one. -/
theorem exists_mask_annotations {above : List Text} (h : ∀ t ∈ above, IsAnnotation t) :
    ∃ as : List Java.AnnotationText, (∀ a ∈ as, a.IsWritten) ∧
      ∀ u, EndsNoSign u → mask .java (above.flatten ++ u) = annotationsText as ++ mask .java u := by
  induction above with
  | nil => exact ⟨[], by simp, fun u _ => rfl⟩
  | cons t above ih =>
    obtain ⟨ht, habove⟩ := List.forall_mem_cons.mp h
    obtain ⟨as, has, hmask⟩ := ih habove
    obtain ⟨a, ha, hta⟩ := ht.masked
    refine ⟨a :: as, List.forall_mem_cons.mpr ⟨ha, has⟩, fun u hu => ?_⟩
    rw [List.flatten_cons, List.append_assoc, ht.mask_append (endsNoSign_annotations habove hu),
      hmask u hu, hta, annotationsText_cons, List.append_assoc]

/-- One annotation more in front of a declaration, on its line, is seen in the attributes of
declarations alone. The line stands behind a text in which no header is open, and behind its blanks
may have other annotations, on lines of their own or not. -/
theorem summarize_annotated (path : Text) {front indent ann rest x y : Text} {s : Char}
    {above : List Text}
    (hf : standingAfter .java .code front = .code) (hx : mask .java front = x ++ s :: y)
    (hs : Settles x s y)
    (hi : Blank indent) (habove : ∀ t ∈ above, IsAnnotation t) (hann : IsAnnotation ann)
    (hn : '\n' ∉ ann) (hr : Java.Declares (mask .java rest)) :
    (summarize .java path (front ++ '\n' :: (indent ++ (above.flatten ++ (ann ++ rest))))).types.map
        View.unattributed.ofType =
      (summarize .java path (front ++ '\n' :: (indent ++ (above.flatten ++ rest)))).types.map
        View.unattributed.ofType := by
  obtain ⟨as, has, hmask⟩ := exists_mask_annotations habove
  obtain ⟨a, ha, hta⟩ := hann.masked
  have noNewline : '\n' ∉ a.text := by
    rw [← List.count_eq_zero, ← hta, count_mask]
    exact List.count_eq_zero.mpr hn
  have line : ∀ u, EndsNoSign u → mask .java (front ++ '\n' :: (indent ++ (above.flatten ++ u))) =
      ((x ++ s :: y) ++ '\n' :: indent) ++ (annotationsText as ++ mask .java u) := by
    intro u hu
    have inert : ∀ c ∈ '\n' :: indent, Inert .java c :=
      fun c hc => inert_of_isBlank (List.forall_mem_cons.mpr ⟨by decide, hi⟩ c hc)
    have kept := mask_inert_append inert (above.flatten ++ u)
    have start : EndsNoSign ('\n' :: (indent ++ (above.flatten ++ u))) :=
      fun c hc => by rw [← Option.mem_some_iff.mp hc]; decide
    have joined : mask .java (front ++ '\n' :: (indent ++ (above.flatten ++ u))) =
        mask .java front ++ mask .java (('\n' :: indent) ++ (above.flatten ++ u)) :=
          maskFrom_join hf start
    rw [joined, kept, hx, hmask u hu]
    exact (List.append_assoc _ _ _).symm
  have declared : EndsNoSign rest := endsNoSign_of_declares hr
  have annotated := line (ann ++ rest) (hann.endsNoSign rest)
  rw [hann.mask_append declared, hta] at annotated
  rw [summarize_eq, summarize_eq, annotated, line rest declared]
  exact (types_annotated (hs.lineFront hi) has ha noNewline hr).symm

/-- Blanks, as which a literal is masked, are arguments. -/
theorem isArguments_of_blank (h : Blank t) : Java.IsArguments t where
  plain c hc := by
    have blank := h c hc
    refine isPlain_of_ne ?_ ?_ <;> rintro rfl <;> exact absurd blank (by decide)
  squares := foldl_squareDepth_blank h 0
  noType key _ b c _ _ hc hi :=
    absurd (h c (hi.subset (by simp))) (by simp [isBlank_of_isNameStart hc])

/-- The annotation `@jakarta.annotation.Generated("x")` as it is masked. -/
def generated : Java.AnnotationText where
  qualifiers := ["jakarta".toList, "annotation".toList]
  name := "Generated".toList
  arguments := some ([], "   ".toList)
  gap := [' ']

theorem isWritten_generated : generated.IsWritten where
  qualifiers := by decide
  name := by decide
  noModifier := by decide
  noCreation := by decide
  arguments p hp := by
    obtain rfl : p = ([], "   ".toList) := (Option.mem_some_iff.mp hp).symm
    exact ⟨by decide, isArguments_of_blank (by decide)⟩
  single h := absurd h (by decide)
  gap := by decide

/-- The annotation `@Deprecated` on a line of its own. -/
def deprecation : Java.AnnotationText := ⟨[], "Deprecated".toList, none, "\n  ".toList⟩

theorem isWritten_deprecation : deprecation.IsWritten :=
  ⟨by decide, by decide, by decide, by decide, by simp [deprecation], fun _ => rfl, by decide⟩

/-- The header `public void m() {`. -/
def plainHeader : Java.MethodText :=
  ⟨[("public".toList, [' '])], none, "void".toList, [' '], ['m'], [], [], [], [' '],
    [], [' '], '\x7b'⟩

theorem summarize_annotated_generated :
    let front := "class A \x7b".toList
    let indent := "  ".toList
    let above := ["@Deprecated\n  ".toList]
    let ann := "@jakarta.annotation.Generated(\"x\") ".toList
    let rest := "public void m() \x7b \x7d\n\x7d".toList
    standingAfter .java .code front = .code ∧ mask .java front = "class A ".toList ++ '\x7b' :: [] ∧
      Settles "class A ".toList '\x7b' [] ∧ Blank indent ∧ (∀ t ∈ above, IsAnnotation t) ∧
        IsAnnotation ann ∧ '\n' ∉ ann ∧
      Java.Declares (mask .java rest) ∧
      (summarize .java [] (front ++ '\n' :: (indent ++ (above.flatten ++ (ann ++ rest))))).types.map
          View.unattributed.ofType =
        (summarize .java [] (front ++ '\n' :: (indent ++ (above.flatten ++ rest)))).types.map
          View.unattributed.ofType := by
  intro front indent above ann rest
  have code : standingAfter .java .code front = .code := by decide +kernel
  have masked : mask .java front = "class A ".toList ++ '\x7b' :: [] := by decide +kernel
  have settled : Settles "class A ".toList '\x7b' [] :=
    ⟨⟨rising_of_notMem (by decide), by decide⟩, by decide, .inl (by decide)⟩
  have blank : Blank indent := by decide
  have others : ∀ t ∈ above, IsAnnotation t := by
    intro t ht
    rw [List.mem_singleton.mp ht]
    exact ⟨by decide +kernel, deprecation, isWritten_deprecation, by decide +kernel⟩
  have annotation : IsAnnotation ann :=
    ⟨by decide +kernel, generated, isWritten_generated, by decide +kernel⟩
  have line : '\n' ∉ ann := by decide
  have declares : Java.Declares (mask .java rest) := by
    have header : plainHeader.IsWritten := by constructor <;> decide
    have text : mask .java rest = plainHeader.text ++ " \x7d\n\x7d".toList := by decide +kernel
    exact text ▸ header.declares (by decide) _
  exact ⟨code, masked, settled, blank, others, annotation, line, declares,
    summarize_annotated [] code masked settled blank others annotation line declares⟩

/-- Behind a name of two parts and no arguments the second one is read as the start of the return
type, since only the place directly behind the at sign is refused. -/
theorem exists_misread_annotation :
    ((summarize .java []
        "class A \x7b\n  @a.B public void m() \x7b \x7d\n\x7d".toList).types.flatMap
        (·.methods)).map
        (fun m => (m.modifiers, m.returnType, m.prototype)) =
      [([], "B public void".toList, "B public void m()".toList)] ∧
    ((summarize .java [] "class A \x7b\n  public void m() \x7b \x7d\n\x7d".toList).types.flatMap
        (·.methods)).map
        (fun m => (m.modifiers, m.returnType, m.prototype)) =
      [(["public".toList], "void".toList, "public void m()".toList)] := by
  decide +kernel

end Source

end SourceSurvey
