import SourceSurvey.Proofs.MemberName

/-! What stands in front of a constructor. A header that is named after the type that holds it is
reported as a constructor unless a dot or one of the creation words stands in front of it, whatever
blanks are in between. -/

namespace SourceSurvey.Source

open Text Pattern

/-- The characters of the word in front of a place. -/
def isNameCharacter (c : Char) : Bool := isAlphanumeric c || c = '_'

/-- A sign stands in front of a place, with nothing but blanks in between. -/
def BehindSign (here : Cursor) (s : Char) : Prop :=
  ∃ x b, here.before.reverse = x ++ s :: b ∧ Blank b

/-- A word stands in front of a place, with nothing but blanks in between, and no longer word ends
with it. -/
def BehindWord (here : Cursor) (w : Text) : Prop :=
  ∃ x b, here.before.reverse = x ++ (w ++ b) ∧ Blank b ∧ ∀ c ∈ x.getLast?, isNameCharacter c = false

variable {here : Cursor} {s : Char} {w : Text}

/-- In front of a place stand blanks, and in front of these what is left when they are dropped. -/
theorem exists_before_eq (here : Cursor) :
    ∃ b, Blank b ∧ here.before = b ++ here.before.dropWhile isBlank :=
  ⟨here.before.takeWhile isBlank, List.all_eq_true.mp List.all_takeWhile,
    List.takeWhile_append_dropWhile.symm⟩

theorem behindSign_iff (hs : isBlank s = false) :
    BehindSign here s ↔ (here.before.dropWhile isBlank).head? = some s := by
  constructor
  · rintro ⟨x, b, h, hb⟩
    have before : here.before = b.reverse ++ s :: x.reverse := by
      simpa using congrArg List.reverse h
    rw [before, dropWhile_blank_append hb.reverse, List.dropWhile_cons_of_neg (by simp [hs]),
      List.head?_cons]
  · intro h
    obtain ⟨y, hy⟩ := List.head?_eq_some_iff.mp h
    obtain ⟨b, hb, before⟩ := exists_before_eq here
    rw [hy] at before
    exact ⟨y.reverse, b.reverse, by simp [before], hb.reverse⟩

theorem behindWord_iff (hn : w ≠ []) (hw : ∀ c ∈ w, isNameCharacter c = true) (hs : Solid w) :
    BehindWord here w ↔ wordBefore (here.before.dropWhile isBlank) = w := by
  constructor
  · rintro ⟨x, b, h, hb, hx⟩
    have before : here.before = b.reverse ++ (w.reverse ++ x.reverse) := by
      simpa using congrArg List.reverse h
    obtain ⟨c, v, hv⟩ := List.exists_cons_of_ne_nil fun h => hn (List.reverse_eq_nil_iff.mp h)
    have stop : (w.reverse ++ x.reverse).dropWhile isBlank = w.reverse ++ x.reverse := by
      rw [hv, List.cons_append]
      exact List.dropWhile_cons_of_neg (by simp [hs c (List.mem_reverse.mp (by simp [hv]))])
    have front : x.reverse.takeWhile isNameCharacter = [] := by
      cases hr : x.reverse with
      | nil => rfl
      | cons d y =>
        have last : x.getLast? = some d := by rw [← List.head?_reverse, hr, List.head?_cons]
        exact List.takeWhile_cons_of_neg (by simp [hx d last])
    have word : (w.reverse ++ x.reverse).takeWhile isNameCharacter = w.reverse := by
      rw [List.takeWhile_append_of_pos fun c hc => hw c (List.mem_reverse.mp hc), front,
        List.append_nil]
    rw [before, dropWhile_blank_append hb.reverse, stop]
    exact (congrArg List.reverse word).trans (List.reverse_reverse w)
  · intro h
    obtain ⟨b, hb, before⟩ := exists_before_eq here
    let back := here.before.dropWhile isBlank
    have word : back.takeWhile isNameCharacter = w.reverse := by
      rw [← h]
      exact (List.reverse_reverse _).symm
    have split : back = w.reverse ++ back.dropWhile isNameCharacter := by
      rw [← word, List.takeWhile_append_dropWhile]
    refine ⟨(back.dropWhile isNameCharacter).reverse, b.reverse, ?_, hb.reverse, fun c hc => ?_⟩
    · rw [before]
      change (b ++ back).reverse = _
      conv_lhs => rw [split]
      simp
    · rw [List.getLast?_reverse] at hc
      have := List.head?_dropWhile_not isNameCharacter back
      rwa [hc] at this

theorem creationWords_plain :
    ∀ w ∈ creationWords, w ≠ [] ∧ (∀ c ∈ w, isNameCharacter c = true) ∧ Solid w := by
  decide

/-- A header reads like a creation where a dot or a creation word stands in front of it. -/
theorem isCreationLike_iff (header : MemberHeader) :
    isCreationLike header = true ↔ BehindSign header.place '.' ∨
      ∃ w ∈ creationWords, BehindWord header.place w := by
  rw [isCreationLike, Bool.or_eq_true, decide_eq_true_eq, List.contains_iff_mem,
    behindSign_iff (by decide)]
  refine or_congr_right ⟨fun h => ?_, ?_⟩
  · obtain ⟨hn, hw, hs⟩ := creationWords_plain _ h
    exact ⟨_, h, (behindWord_iff hn hw hs).mpr rfl⟩
  · rintro ⟨w, h, hb⟩
    obtain ⟨hn, hw, hs⟩ := creationWords_plain w h
    rwa [(behindWord_iff hn hw hs).mp hb]

/-- The constructors of all types are those of the matches that are reported, and these are the
matches that are named after the type that holds them and that stand neither behind a dot nor behind
a creation word. -/
theorem summarize_constructors (language : Language) (path t : Text) :
    let site := Site.ofText language t
    (summarize language path t).types.flatMap (·.constructors) =
        (site.constructorMatches.map fun c => site.constructorOf (.ofMatch c)) ∧
      ∀ c, c ∈ site.constructorMatches ↔ c ∈ language.constructorMatches site.masked ∧
        (∃ h ∈ ownerAt? (language.typeHeaders site.masked) c.start,
          (MemberHeader.ofMatch c).name = h.name) ∧
        ¬BehindSign c.first '.' ∧ ∀ w ∈ creationWords, ¬BehindWord c.first w := by
  intro site
  refine ⟨site.constructors_eq, fun c => ?_⟩
  have creation : isCreationLike (.ofMatch c) = false ↔
      ¬BehindSign c.first '.' ∧ ∀ w ∈ creationWords, ¬BehindWord c.first w := by
    rw [← Bool.not_eq_true, isCreationLike_iff, not_or]
    exact and_congr_right fun _ => by simp [MemberHeader.ofMatch]
  rw [← creation, Site.constructorMatches, List.mem_filter]
  refine and_congr_right fun _ => ?_
  change (ownerAt? (language.typeHeaders site.masked) c.start).any _ = true ↔ _
  rw [Option.any_eq_true]
  simp only [Bool.and_eq_true, decide_eq_true_eq, Bool.not_eq_true']
  constructor
  · rintro ⟨h, hm, hn, hc⟩
    exact ⟨⟨h, hm, hn⟩, hc⟩
  · rintro ⟨⟨h, hm, hn⟩, hc⟩
    exact ⟨h, hm, hn, hc⟩

/-- A conversion operator is reported as a constructor: its key word starts statements, but is no
creation word. -/
theorem exists_constructor_behind_operator :
    let site :=
      Site.ofText .csharp "class A \x7b static implicit operator A(int x) => y; \x7d".toList
    "operator".toList ∈ statementWords ∧ ∃ c ∈ site.constructorMatches,
      BehindWord c.first "operator".toList := by
  intro site
  have read :
      ∃ c ∈ site.constructorMatches,
        wordBefore (c.first.before.dropWhile isBlank) = "operator".toList := by
    decide +kernel
  obtain ⟨c, hc, hw⟩ := read
  exact ⟨by decide, c, hc, (behindWord_iff (by decide) (by decide) (by decide)).mpr hw⟩

end SourceSurvey.Source
