import SourceSurvey.Proofs.Order
import SourceSurvey.Proofs.Bytes

/-! The order in which diagnostics are reported. Texts are ordered as their bytes are, since
characters with larger code points have larger bytes. A diagnostic that was recorded for a walk, a
descriptor or a source is told by its path, its stage and its message, which are all that the order
looks at. So the report is the same in whatever order they were recorded. -/

namespace SourceSurvey

namespace Text

/-! ### The order of bytes -/

theorem toNat_val_lt (c : Char) : c.val.toNat < 0x110000 := by
  rcases c.valid with h | h
  · exact Nat.lt_trans h (by decide)
  · exact h.2

/-- A larger character has larger bytes, whatever follows. -/
theorem utf8EncodeChar_lt {c d : Char} (h : c.toNat < d.toNat) (s t : List UInt8) :
    String.utf8EncodeChar c ++ s < String.utf8EncodeChar d ++ t := by
  have order : c.val.toNat < d.val.toNat := h
  have small := toNat_val_lt c
  have large := toNat_val_lt d
  -- the first byte in which the two differ, for each pair of sizes
  fun_cases String.utf8EncodeChar c <;> fun_cases String.utf8EncodeChar d <;>
    simp (disch := omega) only [List.cons_append, List.nil_append, List.cons_lt_cons_iff,
      UInt8.lt_iff_toNat_lt,
      ← UInt8.toNat_inj, UInt8.toNat_ofNat', Nat.mod_eq_of_lt, Nat.add_lt_add_iff_right,
        Nat.add_right_cancel_iff] <;>
    omega

/-- The order of texts is that of their bytes. -/
theorem le_iff_encode (s t : Text) : le s t = true ↔ encode s ≤ encode t := by
  induction s generalizing t with
  | nil => exact iff_of_true rfl (List.nil_le _)
  | cons a s ih =>
    cases t with
    | nil =>
      have some : encode [] < encode (a :: s) := by
        obtain ⟨byte, bytes, front⟩ :=
          List.exists_cons_of_ne_nil (String.utf8EncodeChar_ne_nil (c := a))
        rw [encode_cons, front]
        exact List.nil_lt_cons _ _
      exact iff_of_false (by simp [le]) (List.not_le.mpr some)
    | cons b t =>
      rw [le, encode_cons, encode_cons]
      split
      · next same =>
        subst same
        rw [ih]
        exact ⟨List.append_left_le, fun h => List.not_lt.mp fun larger =>
          List.not_lt.mpr h (List.append_left_lt larger)⟩
      · next apart =>
        rw [decide_eq_true_eq]
        constructor
        · exact fun h => List.le_of_lt (utf8EncodeChar_lt h _ _)
        · intro h
          rcases Nat.lt_trichotomy a.toNat b.toNat with order | order | order
          · exact order
          · exact absurd (Char.toNat_inj.mp order) apart
          · exact absurd h (List.not_le.mpr (utf8EncodeChar_lt order _ _))

theorem encode_injective {s t : Text} (h : encode s = encode t) : s = t :=
  le_antisymm ((le_iff_encode s t).mpr (h ▸ List.le_refl _))
    ((le_iff_encode t s).mpr (h ▸ List.le_refl _))

theorem lt_iff_encode (s t : Text) : encode s < encode t ↔ s ≠ t ∧ le s t = true := by
  rw [le_iff_encode]
  constructor
  · intro h
    refine ⟨?_, List.le_of_lt h⟩
    rintro rfl
    exact List.lt_irrefl _ h
  · rintro ⟨apart, h⟩
    refine List.not_le.mp fun larger => apart ?_
    exact le_antisymm ((le_iff_encode s t).mpr h) ((le_iff_encode t s).mpr larger)

end Text

namespace Scan.Diagnostic

open Text

/-! ### Recorded diagnostics -/

/-- What is recorded: a directory that cannot be walked, a source that cannot be read, or a
descriptor that gives no project. -/
inductive Recorded : Diagnostic → Prop where
  | walk (path message : Text) : Recorded (.unwalked path message)
  | read (path message : Text) : Recorded (.unreadFile path message)
  | descriptor (e : DescriptorError) : Recorded (.ofDescriptor e)

/-- One diagnostic stands before another one, or both are alike in path, stage and message. -/
def Ordered (a b : Diagnostic) : Prop :=
  encode a.path < encode b.path ∨ encode a.path = encode b.path ∧
    (a.stage.rank < b.stage.rank ∨ a.stage.rank = b.stage.rank ∧
      encode a.message ≤ encode b.message)

variable {a b : Diagnostic}

theorem le_iff_ordered (a b : Diagnostic) : le a b = true ↔ Ordered a b := by
  have path : encode a.path = encode b.path ↔ a.path = b.path := ⟨encode_injective, congrArg encode⟩
  rw [le_iff, Ordered, lt_iff_encode, path, le_iff_encode a.message]

theorem key_eq_of_le (hab : le a b = true) (hba : le b a = true) :
    a.path = b.path ∧ a.stage = b.stage ∧ a.message = b.message := by
  have path := path_eq_of_le hab hba
  rw [le_iff] at hab hba
  have stages := (hab.resolve_left fun h => h.1 path).2
  have stages' := (hba.resolve_left fun h => h.1 path.symm).2
  rcases stages with earlier | ⟨stage, message⟩
  · rcases stages' with later | ⟨later, -⟩ <;> omega
  · rcases stages' with later | ⟨-, message'⟩
    · omega
    · exact ⟨path, eq_of_rank stage, Text.le_antisymm message message'⟩

theorem message_unreadable (path reason : Text) : (DescriptorError.unreadable path reason).message =
    "cannot read descriptor ".toList ++ path ++ [':', ' '] ++ reason := rfl

theorem message_malformed (path reason : Text) : (DescriptorError.malformed path reason).message =
    "malformed descriptor ".toList ++ path ++ [':', ' '] ++ reason := rfl

/-- The message about a descriptor begins with why it gives no project. -/
theorem code_eq_of_message {e e' : DescriptorError} (h : e.message = e'.message) :
    e.code = e'.code := by
  cases e <;> cases e'
  case unreadable.unreadable => rfl
  case malformed.malformed => rfl
  all_goals
    rw [message_unreadable, message_malformed] at h
    exact absurd (congrArg List.head? h) (by simp)

/-- A recorded diagnostic is told by its path, its stage and its message. -/
theorem Recorded.eq_of_key (ha : Recorded a) (hb : Recorded b) (path : a.path = b.path)
    (stage : a.stage = b.stage) (message : a.message = b.message) : a = b := by
  have code : a.code = b.code := by
    cases ha <;> cases hb
    case walk.walk => rfl
    case read.read => rfl
    case descriptor.descriptor => exact code_eq_of_message message
    -- diagnostics of different stages
    all_goals exact absurd stage (by simp [unwalked, unreadFile, ofDescriptor])
  obtain ⟨_, _, _, _⟩ := a
  obtain ⟨_, _, _, _⟩ := b
  simp_all

/-- Among recorded diagnostics two that stand on both sides of one another are one. -/
theorem eq_of_le {ds : List Diagnostic} (recorded : ∀ d ∈ ds, Recorded d)
    (ha : a ∈ ds) (hb : b ∈ ds) (hab : le a b = true) (hba : le b a = true) : a = b := by
  obtain ⟨path, stage, message⟩ := key_eq_of_le hab hba
  exact (recorded a ha).eq_of_key (recorded b hb) path stage message

/-- Recorded diagnostics that are put in order have one order. -/
theorem sort_eq_of_perm {ds es : List Diagnostic} (recorded : ∀ d ∈ ds, Recorded d)
    (same : es.Perm ds) (order : es.Pairwise fun a b => le a b = true) : sort ds = es :=
  ((sort_perm ds).trans same.symm).eq_of_pairwise
    (fun _ _ ha hb => eq_of_le recorded ((sort_perm ds).mem_iff.mp ha) (same.mem_iff.mp hb))
    (pairwise_sort ds) order

/-- Recorded diagnostics are reported in the order of the bytes of their paths, of their stages and
of their messages, and in the same order however they were recorded. -/
theorem sort_canonical {ds : List Diagnostic} (recorded : ∀ d ∈ ds, Recorded d) :
    (sort ds).Perm ds ∧ (sort ds).Pairwise Ordered ∧
      ∀ es : List Diagnostic, es.Perm ds → sort es = sort ds := by
  refine ⟨sort_perm ds, (pairwise_sort ds).imp fun h => (le_iff_ordered _ _).mp h,
    fun es same => ?_⟩
  exact (sort_eq_of_perm recorded ((sort_perm es).trans same) (pairwise_sort es)).symm

/-- Each recorded diagnostic has its place in the order, whichever others there are. -/
theorem exists_sort_eq {first last : List Diagnostic} {g : Diagnostic}
    (recorded : ∀ d ∈ first ++ g :: last, Recorded d) : ∃ front back,
      sort (first ++ g :: last) = front ++ g :: back ∧ sort (first ++ last) = front ++ back := by
  have told : g ∈ sort (first ++ g :: last) := (sort_perm _).mem_iff.mpr (by simp)
  obtain ⟨front, back, sorted⟩ := List.append_of_mem told
  refine ⟨front, back, sorted, sort_eq_of_perm (fun d hd => recorded d ?_) ?_ ?_⟩
  · exact ((List.sublist_cons_self g last).append_left first).subset hd
  · have whole : (front ++ g :: back).Perm (first ++ g :: last) := sorted ▸ sort_perm _
    exact (List.perm_middle.symm.trans (whole.trans List.perm_middle)).cons_inv
  · have whole := pairwise_sort (first ++ g :: last)
    rw [sorted] at whole
    exact whole.sublist ((List.sublist_cons_self g back).append_left front)

/-- A directory that cannot be walked, and two troubles with the descriptor in it. -/
def pomFailures : List Diagnostic :=
  [.ofDescriptor (.malformed "a/pom.xml".toList "unknown token".toList),
    .unwalked "a".toList "denied".toList,
    .ofDescriptor (.unreadable "a/pom.xml".toList "denied".toList)]

theorem sort_canonical_pomFailures : (∀ d ∈ pomFailures, Recorded d) ∧
    (sort pomFailures).Perm pomFailures ∧ (sort pomFailures).Pairwise Ordered ∧
      sort pomFailures.reverse = sort pomFailures := by
  have recorded : ∀ d ∈ pomFailures, Recorded d := by
    intro d hd
    simp only [pomFailures, List.mem_cons, List.not_mem_nil, or_false] at hd
    rcases hd with rfl | rfl | rfl
    · exact .descriptor _
    · exact .walk _ _
    · exact .descriptor _
  obtain ⟨perm, ordered, unique⟩ := sort_canonical recorded
  exact ⟨recorded, perm, ordered, unique _ (List.reverse_perm _)⟩

end Scan.Diagnostic

end SourceSurvey
