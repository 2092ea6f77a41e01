import SourceSurvey.Proofs.Place
import SourceSurvey.Source.Mask

/-! A masked text beside the text. Character by character, one is the other with some characters
masked, whatever the scan decides and however far it looks ahead. So every character keeps its bytes
or gives as many spaces, the newlines stay, and offsets mean the same in both texts. -/

namespace SourceSurvey.Source

open Text

/-- A text and the same text with some characters masked. -/
inductive Mirrors : Text → Text → Prop
  | nil : Mirrors [] []
  | keep {c : Char} {t m : Text} : Mirrors t m → Mirrors (c :: t) (c :: m)
  | blank {c : Char} {t m : Text} : Mirrors t m → Mirrors (c :: t) (maskChar c ++ m)

theorem mirrors_maskFrom (language : Language) (here : Standing) (t : Text) :
    Mirrors t (maskFrom language here t) := by
  induction t generalizing here with
  | nil => exact .nil
  | cons c rest ih =>
    rw [maskFrom]
    split
    · exact .keep (ih _)
    · exact .blank (ih _)

theorem mirrors_mask (language : Language) (t : Text) : Mirrors t (mask language t) :=
  mirrors_maskFrom language .code t

theorem encode_maskChar {c : Char} (hc : c ≠ '\n') :
    encode (maskChar c) = List.replicate c.utf8Size 32 := by
  rw [maskChar, if_neg hc, encode_spaces]

theorem newlineFlags_maskChar (c : Char) : newlineFlags (maskChar c) = newlineFlags [c] := by
  by_cases hc : c = '\n'
  · rw [maskChar, if_pos hc, hc]
  · rw [maskChar, if_neg hc, newlineFlags_spaces, newlineFlags_singleton hc]

namespace Mirrors

theorem byteLength_eq {t m : Text} (h : Mirrors t m) : byteLength m = byteLength t := by
  induction h with
  | nil => rfl
  | keep _ ih => rw [byteLength, ih, byteLength]
  | blank _ ih => rw [byteLength_append, byteLength_maskChar, ih, byteLength]

theorem newlineFlags_eq {t m : Text} (h : Mirrors t m) : newlineFlags m = newlineFlags t := by
  induction h with
  | nil => rfl
  | @keep c t m _ ih =>
    rw [← List.singleton_append, newlineFlags_append, ih, ← newlineFlags_append,
      List.singleton_append]
  | @blank c t m _ ih =>
    rw [newlineFlags_append, newlineFlags_maskChar, ih, ← newlineFlags_append,
      List.singleton_append]

/-- A cut between characters of the text is one of the mirror. -/
theorem split {a b m : Text} (h : Mirrors (a ++ b) m) :
    ∃ a' b', m = a' ++ b' ∧ Mirrors a a' ∧ Mirrors b b' := by
  induction a generalizing m with
  | nil => exact ⟨[], m, rfl, .nil, h⟩
  | cons c a ih =>
    rw [List.cons_append] at h
    cases h with
    | keep h =>
      obtain ⟨a', b', rfl, ha, hb⟩ := ih h
      exact ⟨c :: a', b', rfl, .keep ha, hb⟩
    | blank h =>
      obtain ⟨a', b', rfl, ha, hb⟩ := ih h
      exact ⟨maskChar c ++ a', b', by rw [List.append_assoc], .blank ha, hb⟩

theorem isBoundary {t m : Text} (h : Mirrors t m) {offset : Nat} (ho : IsBoundary t offset) :
    IsBoundary m offset := by
  obtain ⟨start, rest, rfl, rfl⟩ := ho
  obtain ⟨start', rest', rfl, hs, -⟩ := h.split
  exact ⟨start', rest', rfl, hs.byteLength_eq⟩

/-- What stands in the mirror over the bytes of a character. -/
theorem exists_shown {a b m : Text} {c : Char} (h : Mirrors (a ++ c :: b) m) :
    ∃ shown, bytesAt m (byteLength a) c.utf8Size = encode shown ∧
      (shown = [c] ∨ shown = maskChar c) := by
  obtain ⟨a', rest, rfl, ha, hr⟩ := h.split
  rw [← ha.byteLength_eq]
  cases hr with
  | @keep _ _ m _ =>
    refine ⟨[c], ?_, .inl rfl⟩
    have hw : c.utf8Size = byteLength [c] := rfl
    rw [hw, ← List.singleton_append, bytesAt_append]
  | @blank _ _ m _ =>
    refine ⟨maskChar c, ?_, .inr rfl⟩
    rw [← byteLength_maskChar c, bytesAt_append]

/-- Over the bytes of a character the mirror has the same bytes or as many spaces. -/
theorem bytesAt_eq {a b m : Text} {c : Char} (h : Mirrors (a ++ c :: b) m) :
    bytesAt m (byteLength a) c.utf8Size = encode [c] ∨
      c ≠ '\n' ∧ bytesAt m (byteLength a) c.utf8Size = List.replicate c.utf8Size 32 := by
  obtain ⟨shown, hs, rfl | rfl⟩ := h.exists_shown
  · exact .inl hs
  · by_cases hc : c = '\n'
    · rw [hs, maskChar, if_pos hc, hc]
      exact .inl rfl
    · exact .inr ⟨hc, hs.trans (encode_maskChar hc)⟩

end Mirrors

/-- Lines are the same in a text and its mirror. -/
theorem Mirrors.lineOf_eq {t m : Text} (h : Mirrors t m) (offset : Nat) :
    (LineTable.ofText m).lineOf offset = (LineTable.ofText t).lineOf offset := by
  rw [lineOf_ofText, lineOf_ofText, newlinesBefore_eq, newlinesBefore_eq, h.newlineFlags_eq]

/-- Masking keeps the byte length and the newlines of a text; over the bytes of each character the
masked text has the same bytes or as many spaces; and it has the boundaries and lines of the text.
-/
theorem mask_mirrors (language : Language) (t : Text) :
    (encode (mask language t)).length = (encode t).length ∧
      (∀ a c b, t = a ++ c :: b →
        (bytesAt (mask language t) (byteLength a) c.utf8Size = encode [c] ∨
          bytesAt (mask language t) (byteLength a) c.utf8Size = List.replicate c.utf8Size 32) ∧
        (c = '\n' → bytesAt (mask language t) (byteLength a) c.utf8Size = encode [c])) ∧
      (∀ offset : Nat, (encode (mask language t))[offset]? = some newlineByte ↔
        (encode t)[offset]? = some newlineByte) ∧
      (∀ offset : Nat, IsBoundary t offset → IsBoundary (mask language t) offset) ∧
      ∀ offset : Nat,
        (LineTable.ofText (mask language t)).lineOf offset =
          (LineTable.ofText t).lineOf offset := by
  have h := mirrors_mask language t
  refine ⟨?_, ?_, fun offset => ?_, fun offset => h.isBoundary, h.lineOf_eq⟩
  · rw [length_encode, length_encode, h.byteLength_eq]
  · rintro a c b rfl
    rcases h.bytesAt_eq with hk | ⟨hc, hb⟩
    · exact ⟨.inl hk, fun _ => hk⟩
    · exact ⟨.inr hb, fun hn => absurd hn hc⟩
  · rw [← newlineFlags_getElem?, ← newlineFlags_getElem?, h.newlineFlags_eq]

end SourceSurvey.Source
