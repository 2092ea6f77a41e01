import SourceSurvey.Text.Utf8

/-! The bytes of a text. Its byte length counts them, the boundaries of its characters are the ends
of its starts, and the byte of a newline stands in no other character. -/

namespace SourceSurvey.Text

/-- The byte of a newline. -/
def newlineByte : UInt8 := 10

/-- The bytes of a text in a range. -/
def bytesAt (t : Text) (start size : Nat) : List UInt8 := ((encode t).drop start).take size

/-- An offset at which a character of the text begins, or its end. -/
def IsBoundary (t : Text) (offset : Nat) : Prop :=
  ∃ start rest, t = start ++ rest ∧ byteLength start = offset

theorem encode_cons (c : Char) (t : Text) : encode (c :: t) = String.utf8EncodeChar c ++ encode t :=
  List.flatMap_cons

theorem encode_append (a b : Text) : encode (a ++ b) = encode a ++ encode b := List.flatMap_append

theorem encode_singleton (c : Char) : encode [c] = String.utf8EncodeChar c :=
  List.flatMap_singleton ..

theorem length_encode (t : Text) : (encode t).length = byteLength t := by
  induction t with
  | nil => rfl
  | cons c t ih =>
      rw [encode_cons, List.length_append, ih, String.length_utf8EncodeChar, byteLength]

/-- The bytes behind a start of the text, as many as the next part takes. -/
theorem bytesAt_append (a b c : Text) :
    bytesAt (a ++ (b ++ c)) (byteLength a) (byteLength b) = encode b := by
  rw [bytesAt, encode_append, encode_append, ← length_encode a, ← length_encode b, List.drop_left,
    List.take_left]

theorem encode_spaces (n : Nat) : encode (List.replicate n ' ') = List.replicate n 32 := by
  induction n with
  | zero => rfl
  | succ n ih =>
    rw [List.replicate_succ, List.replicate_succ, encode_cons, ih]
    rfl

/-! ### Newlines -/

theorem encode_newline : encode ['\n'] = [newlineByte] := rfl

theorem newlineByte_ne {n : Nat} (h : n % 256 ≠ 10) : newlineByte ≠ UInt8.ofNat n := by
  intro he
  have hn := congrArg UInt8.toNat he
  rw [UInt8.toNat_ofNat'] at hn
  exact h hn.symm

/-- The bytes of a character past ASCII are all above the newline. -/
theorem newlineByte_notMem {c : Char} (hc : c ≠ '\n') : newlineByte ∉ String.utf8EncodeChar c := by
  have hv : c.val.toNat ≠ 10 := fun h => hc (Char.ext (UInt32.toNat_inj.mp h))
  fun_cases String.utf8EncodeChar c <;> simp only [List.mem_cons, List.not_mem_nil,
    or_false, not_or]
  · exact newlineByte_ne (by omega)
  · exact ⟨newlineByte_ne (by omega), newlineByte_ne (by omega)⟩
  · exact ⟨newlineByte_ne (by omega), newlineByte_ne (by omega), newlineByte_ne (by omega)⟩
  · exact ⟨newlineByte_ne (by omega), newlineByte_ne (by omega), newlineByte_ne (by omega),
      newlineByte_ne (by omega)⟩

/-- For every byte of a text, whether it is a newline. -/
def newlineFlags (t : Text) : List Bool := (encode t).map (· == newlineByte)

theorem newlineFlags_append (a b : Text) :
    newlineFlags (a ++ b) = newlineFlags a ++ newlineFlags b := by
  rw [newlineFlags, encode_append, List.map_append]
  rfl

theorem newlineFlags_singleton {c : Char} (hc : c ≠ '\n') :
    newlineFlags [c] = List.replicate c.utf8Size false := by
  rw [newlineFlags, encode_singleton, ← String.length_utf8EncodeChar, List.map_eq_replicate_iff]
  intro b hb
  exact beq_false_of_ne fun he => newlineByte_notMem hc (he ▸ hb)

theorem newlineFlags_spaces (n : Nat) :
    newlineFlags (List.replicate n ' ') = List.replicate n false := by
  rw [newlineFlags, encode_spaces, List.map_replicate]
  rfl

theorem newlineFlags_getElem? (t : Text) (offset : Nat) :
    (newlineFlags t)[offset]? = some true ↔ (encode t)[offset]? = some newlineByte := by
  simp [newlineFlags]

/-- The number of newlines below an offset. -/
def newlinesBefore (t : Text) (offset : Nat) : Nat := ((encode t).take offset).count newlineByte

theorem newlinesBefore_eq (t : Text) (offset : Nat) :
    newlinesBefore t offset = ((newlineFlags t).take offset).count true := by
  rw [newlinesBefore, newlineFlags, ← List.map_take, List.count, List.count, List.countP_map]
  congr 1
  funext b
  simp

theorem newlinesBefore_cons_newline (t : Text) (offset : Nat) :
    newlinesBefore ('\n' :: t) (offset + 1) = newlinesBefore t offset + 1 := by
  rw [newlinesBefore, encode_cons, ← encode_singleton, encode_newline, List.singleton_append,
    List.take_succ_cons, List.count_cons_self]
  rfl

theorem newlinesBefore_cons {c : Char} (hc : c ≠ '\n') (t : Text) (offset : Nat) :
    newlinesBefore (c :: t) offset = newlinesBefore t (offset - c.utf8Size) := by
  have hz : ((String.utf8EncodeChar c).take offset).count newlineByte = 0 :=
    List.count_eq_zero.mpr fun h => newlineByte_notMem hc (List.mem_of_mem_take h)
  rw [newlinesBefore, encode_cons, List.take_append, List.count_append, hz, Nat.zero_add,
    String.length_utf8EncodeChar]
  rfl

end SourceSurvey.Text
