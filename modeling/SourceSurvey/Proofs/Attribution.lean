import SourceSurvey.Proofs.Matches
import SourceSurvey.Proofs.Mirror
import SourceSurvey.Source.Extraction
import Mathlib.Data.List.Induction

/-! Members and their types. The type headers of a text cut it into intervals, each from the start
of a type to the start of the next one. A type has the members that start in its interval, so the
members of all types in order are the ones behind the first type header, each once. -/

namespace SourceSurvey.Source

open Text

/-! ### Parting a list -/

section Parting

variable {α β : Type}

/-- Two filters give one where nothing that the second keeps comes before what the first keeps. -/
theorem filter_append_filter {p q : α → Bool} {l : List α} (h : ∀ a, q a = true → p a = false)
    (ho : l.Pairwise fun a b => q a = true → p b = false) :
    l.filter p ++ l.filter q = l.filter fun a => p a || q a := by
  induction ho with
  | nil => rfl
  | @cons a l ha _ ih =>
    by_cases hq : q a = true
    · have hp : l.filter p = [] := List.filter_eq_nil_iff.mpr fun b hb => by simp [ha b hb hq]
      rw [hp, List.nil_append] at ih
      rw [List.filter_cons_of_neg (by simp [h a hq]), hp, List.nil_append,
        List.filter_cons_of_pos hq, List.filter_cons_of_pos (by simp [hq]), ih]
    · by_cases hp : p a = true
      · rw [List.filter_cons_of_pos hp, List.filter_cons_of_neg hq, List.cons_append, ih,
          List.filter_cons_of_pos (by simp [hp])]
      · rw [List.filter_cons_of_neg hp, List.filter_cons_of_neg hq, ih,
          List.filter_cons_of_neg (by simp [hp, hq])]

/-- Where keys do not go back along a list, its parts by key, put together in the order of their
owners, hold what has an owner, in the order of the list. -/
theorem flatMap_zipIdx_filter (key : α → Option Nat) (keep : β → α → Bool) {l : List α}
    (ho : l.Pairwise fun a b => ∀ i j, key a = some i → key b = some j → i ≤ j) (owners : List β) :
    (owners.zipIdx.flatMap fun (owner, index) => l.filter fun a =>
      key a = some index && keep owner a) =
      l.filter fun a => ((key a).bind (owners[·]?)).any (keep · a) := by
  induction owners using List.reverseRecOn with
  | nil => simp
  | append_singleton owners owner ih =>
    have unowned {a : α} (ha : ∀ i, key a = some i → owners.length ≤ i) :
        ((key a).bind (owners[·]?)).any (keep · a) = false := by
      cases hk : key a with
      | none => rfl
      | some i =>
        rw [Option.bind_some, List.getElem?_eq_none (ha i hk)]
        rfl
    rw [List.zipIdx_append, List.flatMap_append, ih, List.zipIdx_singleton, List.flatMap_singleton,
      Nat.zero_add, filter_append_filter]
    · congr 1
      funext a
      cases hk : key a with
      | none => simp
      | some i =>
        rcases Nat.lt_trichotomy i owners.length with hi | rfl | hi
        · have hne : i ≠ owners.length := by omega
          simp [List.getElem?_append_left hi, hne]
        · simp
        · have hne : i ≠ owners.length := by omega
          have hl : (owners ++ [owner]).length ≤ i := by
            rw [List.length_append, List.length_singleton]
            omega
          simp [List.getElem?_eq_none hl, List.getElem?_eq_none (Nat.le_of_lt hi), hne]
    · intro a ha
      rw [Bool.and_eq_true, decide_eq_true_eq] at ha
      apply unowned
      intro i hi
      rw [ha.1, Option.some.injEq] at hi
      omega
    · refine ho.imp fun {a b} hab ha => ?_
      rw [Bool.and_eq_true, decide_eq_true_eq] at ha
      apply unowned
      intro i hi
      exact hab _ _ ha.1 hi

/-- The last element that a filter keeps. -/
theorem getLast?_filter_of_getElem? {p : α → Bool} {l : List α} {i : Nat} {a : α}
    (ha : l[i]? = some a) (hp : p a = true) (hn : ∀ j b, l[j]? = some b → i < j → ¬p b = true) :
    (l.filter p).getLast? = some a := by
  obtain ⟨hi, rfl⟩ := List.getElem?_eq_some_iff.mp ha
  have hd : (l.drop (i + 1)).filter p = [] := by
    refine List.filter_eq_nil_iff.mpr fun b hb => ?_
    obtain ⟨k, hk⟩ := List.mem_iff_getElem?.mp hb
    rw [List.getElem?_drop] at hk
    exact hn _ b hk (by omega)
  have hl : l.filter p = (l.take i).filter p ++ [l[i]] := by
    conv_lhs => rw [← List.take_append_drop i l]
    rw [List.filter_append, List.drop_eq_getElem_cons hi, List.filter_cons_of_pos hp, hd]
  rw [hl, List.getLast?_concat]

end Parting

/-! ### Intervals of types -/

/-- Whether an offset lies in the interval of a type: at its start or behind it, and before the
start of the next one. -/
def holds (headers : List TypeHeader) (index offset : Nat) : Bool :=
  headers[index]?.any (·.start ≤ offset) && headers[index + 1]?.all (offset < ·.start)

/-- The last type header that starts at an offset or before it. -/
def ownerAt? (headers : List TypeHeader) (offset : Nat) : Option TypeHeader :=
  (headers.filter (·.start ≤ offset)).getLast?

section Intervals

variable {headers : List TypeHeader} (h : headers.Pairwise (·.start < ·.start))
include h

/-- Looking up the owner finds the interval that holds the offset. -/
theorem ownerOf?_eq_some_iff_holds (offset index : Nat) :
    (Ownership.ofStarts (headers.map (·.start))).ownerOf? offset = some index ↔
      holds headers index offset = true := by
  rw [Ownership.ownerOf?_eq_some_iff_of_increasing (List.pairwise_map.mpr h), holds,
    Bool.and_eq_true, Option.any_eq_true, Option.all_eq_true]
  simp only [List.getElem?_map, Option.map_eq_some_iff, decide_eq_true_eq]
  constructor
  · rintro ⟨s, ⟨header, hh, rfl⟩, ho, hn⟩
    exact ⟨⟨header, hh, ho⟩, fun next hnext => hn _ ⟨next, hnext, rfl⟩⟩
  · rintro ⟨⟨header, hh, ho⟩, hn⟩
    refine ⟨header.start, ⟨header, hh, rfl⟩, ho, ?_⟩
    rintro s ⟨next, hnext, rfl⟩
    exact hn next hnext

/-- The header at the index of the owner is the last one that is not past the offset. -/
theorem ownerAt?_eq (offset : Nat) :
    ((Ownership.ofStarts (headers.map (·.start))).ownerOf? offset).bind (headers[·]?) =
      ownerAt? headers offset := by
  cases ho : (Ownership.ofStarts (headers.map (·.start))).ownerOf? offset with
  | none =>
    rw [Ownership.ownerOf?_eq_none_iff] at ho
    have hf : headers.filter (·.start ≤ offset) = [] := by
      refine List.filter_eq_nil_iff.mpr fun header hh => ?_
      have := ho _ (List.mem_map_of_mem hh)
      simpa using this
    rw [ownerAt?, hf]
    rfl
  | some i =>
    obtain ⟨s, hs, hso, hg⟩ := (Ownership.ownerOf?_eq_some_iff ..).mp ho
    obtain ⟨header, hh, rfl⟩ : ∃ header, headers[i]? = some header ∧ header.start = s := by
      simpa using hs
    rw [Option.bind_some, hh, ownerAt?, getLast?_filter_of_getElem? hh (by simpa using hso)]
    intro j later hl hij
    have hs' : (headers.map (·.start))[j]? = some later.start := by simp [hl]
    have hlt := Ownership.lt_of_getElem? (List.pairwise_map.mpr h) hs hs' hij
    simp only [decide_eq_true_eq]
    intro hle
    have := hg j later.start hs' hle
    omega

/-- There is an owner behind the start of the first type. -/
theorem isSome_ownerAt? (offset : Nat) :
    (ownerAt? headers offset).isSome = headers.head?.any (·.start ≤ offset) := by
  rw [ownerAt?, Bool.eq_iff_iff, List.getLast?_isSome, ne_eq, List.filter_eq_nil_iff]
  cases headers with
  | nil => simp
  | cons first rest =>
    rw [List.head?_cons, Option.any_some, decide_eq_true_eq]
    constructor
    · intro hex
      by_contra hlt
      apply hex
      intro header hh hle
      rw [decide_eq_true_eq] at hle
      rcases List.mem_cons.mp hh with rfl | hh
      · exact hlt hle
      · have := (List.pairwise_cons.mp h).1 header hh
        omega
    · intro hle hall
      exact hall first List.mem_cons_self (by simpa using hle)

/-- The members of all types in order are the members that have an owner. -/
theorem flatMap_holds {members : List MemberHeader} (hm : members.Pairwise (·.start < ·.start))
    (keep : TypeHeader → MemberHeader → Bool) :
    (headers.zipIdx.flatMap fun (header, index) =>
      members.filter fun m => holds headers index m.start && keep header m) =
      members.filter fun m => (ownerAt? headers m.start).any (keep · m) := by
  let owner (m : MemberHeader) := (Ownership.ofStarts (headers.map (·.start))).ownerOf? m.start
  have monotone : members.Pairwise fun a b => ∀ i j, owner a = some i →
      owner b = some j → i ≤ j := by
    refine hm.imp fun {a b} hab i j hi hj => ?_
    exact Ownership.ownerOf?_mono (List.pairwise_map.mpr h) (Nat.le_of_lt hab) hi hj
  have parted := flatMap_zipIdx_filter owner keep monotone headers
  unfold owner at parted
  simp only [ownerOf?_eq_some_iff_holds h, ownerAt?_eq h, Bool.decide_eq_true] at parted
  exact parted

end Intervals

/-! ### The types of a text -/

/-- Lines are those of the text itself, though the table is made from the masked text. -/
theorem Site.lineOf_ofText (language : Language) (t : Text) (offset : Nat) :
    (Site.ofText language t).lineTable.lineOf offset = 1 + newlinesBefore t offset := by
  show (LineTable.ofText (mask language t)).lineOf offset = 1 + newlinesBefore t offset
  rw [(mirrors_mask language t).lineOf_eq, Source.lineOf_ofText]

theorem filterMap_owner (members : List MemberHeader) (owner : MemberHeader → Option Nat)
    (index : Nat) :
    ((members.map fun m => (owner m, m)).filterMap fun (o, m) =>
      if o = some index then some m else none) =
      members.filter fun m => owner m = some index := by
  induction members with
  | nil => rfl
  | cons m members ih =>
    rw [List.map_cons, List.filterMap_cons, List.filter_cons, ih]
    by_cases ho : owner m = some index <;> simp [ho]

/-- Every type has the members in its interval, and of the constructors those that bear its name and
do not read like a creation. -/
theorem Site.types_eq (site : Site) :
    site.types = (site.language.typeHeaders site.masked).zipIdx.map fun (header, index) =>
      { site.typeOf header with
        methods := (site.methodHeaders.filter fun m =>
          holds (site.language.typeHeaders site.masked) index m.start).map site.methodOf
        constructors := ((site.language.constructorHeaders site.masked).filter fun c =>
          holds (site.language.typeHeaders site.masked) index c.start &&
            (c.name = header.name && !isCreationLike c)).map site.constructorOf } := by
  have increasing := site.language.pairwise_typeHeaders site.masked
  rw [Site.types]
  congr 1
  funext (header, index)
  simp only [filterMap_owner, Site.constructorHeaders, List.filter_filter,
    ownerOf?_eq_some_iff_holds increasing, Bool.decide_eq_true]
  simp only [Bool.and_comm]

/-- The methods of all types in order are the ones behind the first type header. -/
theorem Site.flatMap_methods (site : Site) :
    site.types.flatMap (·.methods) =
      (site.methodHeaders.filter fun m =>
        (site.language.typeHeaders site.masked).head?.any (·.start ≤ m.start)).map
          site.methodOf := by
  have increasing := site.language.pairwise_typeHeaders site.masked
  have held := flatMap_holds increasing ((site.language.pairwise_methodHeaders site.masked).filter
    fun m => !isStatementLike site.language.methodModifiers m) fun _ _ => true
  have owned (m : MemberHeader) :
      (ownerAt? (site.language.typeHeaders site.masked) m.start).any (fun _ => true) =
        (site.language.typeHeaders site.masked).head?.any (·.start ≤ m.start) := by
    rw [← isSome_ownerAt? increasing]
    cases ownerAt? (site.language.typeHeaders site.masked) m.start <;> rfl
  simp only [Bool.and_true, owned] at held
  rw [Site.types_eq, List.flatMap_map, Site.methodHeaders, ← held, List.map_flatMap]

/-- The constructors of all types in order are the ones named after the type that holds them. -/
theorem Site.flatMap_constructors (site : Site) :
    site.types.flatMap (·.constructors) =
      ((site.language.constructorHeaders site.masked).filter fun c =>
        (ownerAt? (site.language.typeHeaders site.masked) c.start).any fun h =>
          c.name = h.name && !isCreationLike c).map site.constructorOf := by
  have increasing := site.language.pairwise_typeHeaders site.masked
  have held := flatMap_holds increasing (site.language.pairwise_constructorHeaders site.masked)
    fun h c => c.name = h.name && !isCreationLike c
  rw [Site.types_eq, List.flatMap_map, ← held, List.map_flatMap]

/-- A listed type comes from the header at its index. -/
theorem Site.exists_header {site : Site} {index : Nat} {d : TypeDeclaration}
    (hd : site.types[index]? = some d) :
    ∃ header, (site.language.typeHeaders site.masked)[index]? = some header ∧ d.name = header.name ∧
      d.methods = (site.methodHeaders.filter fun m =>
        holds (site.language.typeHeaders site.masked) index m.start).map site.methodOf ∧
      d.constructors = ((site.language.constructorHeaders site.masked).filter fun c =>
        holds (site.language.typeHeaders site.masked) index c.start &&
          (c.name = header.name && !isCreationLike c)).map site.constructorOf := by
  rw [Site.types_eq, List.getElem?_map, Option.map_eq_some_iff] at hd
  obtain ⟨⟨header, i⟩, hz, rfl⟩ := hd
  rw [List.getElem?_zipIdx, Option.map_eq_some_iff] at hz
  obtain ⟨_, hh, he⟩ := hz
  obtain ⟨rfl, rfl⟩ := Prod.mk.inj he
  rw [Nat.zero_add]
  exact ⟨_, hh, rfl, rfl, rfl⟩

/-- What of a type is not its members is read off its header. -/
theorem Site.map_types {γ : Type} (site : Site) (f : TypeDeclaration → γ)
    (hf : ∀ d methods constructors,
    f { d with methods := methods, constructors := constructors } = f d) :
    site.types.map f = (site.language.typeHeaders site.masked).map fun h => f (site.typeOf h) := by
  rw [Site.types_eq, List.map_map]
  conv_rhs => rw [← List.zipIdx_map_fst 0 (site.language.typeHeaders site.masked), List.map_map]
  apply List.map_congr_left
  rintro ⟨header, index⟩ -
  exact hf ..

/-- Headers come in text order, and types are listed so. A type has the method headers in its
interval, and of the constructor headers those that bear its name and do not read like a creation;
over all types no member is lost, moved or told twice. Lines count the newlines of the text before a
header. -/
theorem summarize_types (language : Language) (path t : Text) :
    let site := Site.ofText language t
    let headers := language.typeHeaders site.masked
    let constructors := language.constructorHeaders site.masked
    let types := (summarize language path t).types
    let ownedMethods := site.methodHeaders.filter fun m => headers.head?.any (·.start ≤ m.start)
    let ownedConstructors := constructors.filter fun c =>
      (ownerAt? headers c.start).any fun h => c.name = h.name && !isCreationLike c
    (headers.Pairwise (·.start < ·.start) ∧
      (language.methodHeaders site.masked).Pairwise (·.start < ·.start) ∧
      constructors.Pairwise (·.start < ·.start)) ∧
    types.map (fun d => { d with methods := [], constructors := [] }) = headers.map site.typeOf ∧
    (∀ index d, types[index]? = some d →
      d.methods = (site.methodHeaders.filter fun m => holds headers index m.start).map
        site.methodOf ∧
      d.constructors = (constructors.filter fun c =>
        holds headers index c.start && (c.name = d.name && !isCreationLike c)).map
          site.constructorOf) ∧
    types.flatMap (·.methods) = ownedMethods.map site.methodOf ∧
    types.flatMap (·.constructors) = ownedConstructors.map site.constructorOf ∧
    types.map (·.line) = headers.map (fun h => 1 + newlinesBefore t h.start) ∧
    (types.flatMap (·.methods)).map (·.line) = ownedMethods.map
      (fun m => 1 + newlinesBefore t m.start) ∧
    (types.flatMap (·.constructors)).map (·.line) =
      ownedConstructors.map fun c => 1 + newlinesBefore t c.start := by
  intro site headers constructors types ownedMethods ownedConstructors
  have methodsEq : types.flatMap (·.methods) = ownedMethods.map site.methodOf :=
    site.flatMap_methods
  have constructorsEq : types.flatMap (·.constructors) = ownedConstructors.map site.constructorOf :=
    site.flatMap_constructors
  have line (offset : Nat) : site.lineTable.lineOf offset = 1 + newlinesBefore t offset :=
    Site.lineOf_ofText language t offset
  refine ⟨⟨?_, ?_, ?_⟩, ?_, ?_, methodsEq, constructorsEq, ?_, ?_, ?_⟩
  · exact language.pairwise_typeHeaders site.masked
  · exact language.pairwise_methodHeaders site.masked
  · exact language.pairwise_constructorHeaders site.masked
  · exact site.map_types (fun d => { d with methods := [], constructors := [] }) fun _ _ _ => rfl
  · intro index d hd
    obtain ⟨header, -, hn, hm, hc⟩ := Site.exists_header hd
    rw [hn]
    exact ⟨hm, hc⟩
  · simp only [← line]
    exact site.map_types (·.line) fun _ _ _ => rfl
  · simp only [← line]
    rw [methodsEq, List.map_map]
    rfl
  · simp only [← line]
    rw [constructorsEq, List.map_map]
    rfl

end SourceSurvey.Source
