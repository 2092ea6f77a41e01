import SourceSurvey.Proofs.CharacterOffsets
import SourceSurvey.Proofs.Lookup
import SourceSurvey.Proofs.MemberSearch

/-! Extraction with every cut checked. A summary is made step by step: members are searched for,
each is given to the type that owns its start, and its attributes and parameters are cut out of the
text at offsets. A step fails where a text would be cut elsewhere than at boundaries, an index would
be out of range, or an offset or a depth would fall below zero. No step does: after every member,
the list holds the types with the members that were given to them, so the owner of the next one is
in the list, and the summary is the one that is told without steps. -/

namespace SourceSurvey

open Text Pattern Source

/-- A walk along a list with steps that may fail gives what they give, where none of them fails. -/
theorem mapM_eq_some_map {α β : Type} {f? : α → Option β} {f : α → β} {l : List α}
    (h : ∀ a ∈ l, f? a = some (f a)) :
    l.mapM f? = some (l.map f) := by
  induction l with
  | nil => rfl
  | cons a l ih =>
    rw [List.mapM_cons, h a List.mem_cons_self, ih fun b hb => h b (List.mem_cons_of_mem a hb)]
    rfl

/-- A run of steps that may fail leads from state to state, where a state is told by what of the
list has been passed. -/
theorem foldlM_eq_some {α β : Type} {step? : β → α → Option β} (state : List α → β) {l : List α}
    (h : ∀ a ∈ l, ∀ passed, step? (state passed) a = some (state (passed ++ [a])))
    (passed : List α) :
    l.foldlM step? (state passed) = some (state (passed ++ l)) := by
  induction l generalizing passed with
  | nil =>
    rw [List.append_nil]
    rfl
  | cons a l ih =>
    obtain ⟨first, others⟩ := List.forall_mem_cons.mp h
    rw [List.foldlM_cons, first, Option.bind_eq_bind, Option.bind_some, ih others,
      List.append_assoc, List.singleton_append]

/-! ### Parameters and headers -/

namespace Source

/-- A parameter of C#, cut out of its text at offsets. -/
def CSharp.parseParameter? (t : Text) : Option Parameter := do
  let raw := trim t
  let (attributes, rest) ← takeGroups? raw
  let tokens := words (← stripDefault? rest)
  let modifiers := tokens.takeWhile parameterModifiers.contains
  let declared := tokens.dropWhile parameterModifiers.contains
  return {
    raw := raw
    typeName := match declared.dropLast with
      | [] => none
      | typeWords => some ([' '].intercalate typeWords)
    name := declared.getLast?
    variadic := modifiers.contains "params".toList
    modifiers := modifiers
    attributes := attributes }

theorem CSharp.parseParameter?_eq (t : Text) :
    CSharp.parseParameter? t = some (CSharp.parseParameter t) := by
  rw [CSharp.parseParameter?, takeGroups?_eq, Option.bind_eq_bind, Option.bind_some]
  dsimp only
  rw [stripDefault?_eq]
  rfl

/-- The member headers of a pattern, searched for step by step. -/
def memberHeaders? (p : Pattern Slot) (t : Text) : Option (List MemberHeader) :=
  (p.search t).members?.map fun ms => ms.map MemberHeader.ofMatch

theorem memberHeaders?_eq (p : Pattern Slot) (t : Text) :
    memberHeaders? p t = some (memberHeaders p t) := by
  rw [memberHeaders?, Search.members?_eq (p := p) rfl, Option.map_some, memberHeaders]

end Source

namespace Language

/-- One entry of a parameter list, taken apart; only those of C# are cut at offsets. -/
def parseParameter? : Language → Text → Option Parameter
  | .csharp => CSharp.parseParameter?
  | .java => some ∘ Java.parseParameter

def parseParameters? (language : Language) (list : Text) : Option (List Parameter) :=
  (splitParameters list).mapM language.parseParameter?

def methodHeaders? : Language → Text → Option (List MemberHeader)
  | .csharp => memberHeaders? CSharp.methodPattern
  | .java => memberHeaders? Java.methodPattern

def constructorHeaders? : Language → Text → Option (List MemberHeader)
  | .csharp => memberHeaders? CSharp.constructorPattern
  | .java => memberHeaders? Java.constructorPattern

theorem parseParameter?_eq (language : Language) (t : Text) :
    language.parseParameter? t = some (language.parseParameter t) := by
  cases language with
  | csharp => exact CSharp.parseParameter?_eq t
  | java => rfl

theorem parseParameters?_eq (language : Language) (list : Text) :
    language.parseParameters? list = some (language.parseParameters list) :=
  mapM_eq_some_map fun t _ => language.parseParameter?_eq t

theorem methodHeaders?_eq (language : Language) (t : Text) :
    language.methodHeaders? t = some (language.methodHeaders t) := by
  cases language <;> exact memberHeaders?_eq _ t

theorem constructorHeaders?_eq (language : Language) (t : Text) :
    language.constructorHeaders? t = some (language.constructorHeaders t) := by
  cases language <;> exact memberHeaders?_eq _ t

end Language

namespace Source

/-! ### Owners -/

/-- The owner of an offset, read out of the table in front of the place where it parts. It fails
where the table has no such entry. -/
def Ownership.lookUp? (o : Ownership) (offset : Nat) : Option (Option Nat) :=
  let parting := partingPoint (·.1 ≤ offset) o.starts
  if parting = 0 then some none
  else do
    let last ← Nat.psub parting 1
    let entry ← o.starts[last]?
    return some entry.2

theorem partingWithin_le {α : Type} {p : α → Bool} {l : List α} {low high : Nat} (h : low ≤ high) :
    partingWithin p l low high ≤ high := by
  fun_induction partingWithin p l low high with
  | case1 low high hlt middle _ ih => exact ih (by omega)
  | case2 low high hlt middle _ ih => exact (ih (by omega)).trans (by omega)
  | case3 low high _ => exact h

theorem Ownership.lookUp?_ofStarts (starts : List Nat) (offset : Nat) :
    (ofStarts starts).lookUp? offset = some ((ofStarts starts).ownerOf? offset) := by
  have bound :
      partingPoint (·.1 ≤ offset) (ofStarts starts).starts ≤ (ofStarts starts).starts.length :=
    partingWithin_le (Nat.zero_le _)
  rw [← ownerByHalving?_ofStarts, ownerByHalving?, lookUp?]
  cases hp : partingPoint (·.1 ≤ offset) (ofStarts starts).starts with
  | zero => rfl
  | succ n =>
    rw [hp] at bound
    have entry := List.getElem?_eq_getElem (Nat.lt_of_succ_le bound)
    simp [entry]

theorem Ownership.isEmpty_ofStarts (starts : List Nat) :
    (ofStarts starts).isEmpty = starts.isEmpty := by
  cases starts with
  | nil => simp [ofStarts, isEmpty]
  | cons s starts =>
    have found : (s, 0) ∈ (ofStarts (s :: starts)).starts := mem_starts_ofStarts.mpr rfl
    exact List.isEmpty_eq_false_iff.mpr (List.ne_nil_of_mem found)

/-- A list with the element at an index changed. It fails where the index is out of range. -/
def changeAt? {α : Type} (change : α → α) (l : List α) (index : Nat) : Option (List α) :=
  if index < l.length then some (l.modify index change) else none

/-! ### Steps -/

namespace Site

variable (site : Site)

/-- The owners of the offsets of a text. -/
def ownership : Ownership := .ofStarts ((site.language.typeHeaders site.masked).map (·.start))

def typeOf? (header : TypeHeader) : Option TypeDeclaration := do
  let components ← header.components.elim (some []) site.language.parseParameters?
  let attributes ← collectLeading? site.masked header.start site.language.attributeMark
  return { site.typeOf header with recordComponents := components, attributes := attributes }

def methodOf? (header : MemberHeader) : Option Method := do
  let attributes ← collectLeading? site.masked header.start site.language.attributeMark
  let parameters ← site.language.parseParameters? header.parameters
  return { site.methodOf header with attributes := attributes, parameters := parameters }

def constructorOf? (header : MemberHeader) : Option Constructor := do
  let attributes ← collectLeading? site.masked header.start site.language.attributeMark
  let parameters ← site.language.parseParameters? header.parameters
  return { site.constructorOf header with attributes := attributes, parameters := parameters }

/-- The types with the method of a header given to its owner, if it has one and does not read like a
statement. -/
def addMethod? (types : List TypeDeclaration) (header : MemberHeader) :
    Option (List TypeDeclaration) := do
  if isStatementLike site.language.methodModifiers header then return types
  let some owner ← site.ownership.lookUp? header.start | return types
  let method ← site.methodOf? header
  changeAt? (fun d => { d with methods := d.methods ++ [method] }) types owner

/-- The types with the constructor of a header given to its owner, if it has one whose name it bears
and does not read like a creation. -/
def addConstructor? (types : List TypeDeclaration) (header : MemberHeader) :
    Option (List TypeDeclaration) := do
  let some owner ← site.ownership.lookUp? header.start | return types
  let declaration ← types[owner]?
  if header.name ≠ declaration.name then return types
  if ← isCreationAt? site.masked header.start then return types
  let constructor ← site.constructorOf? header
  changeAt? (fun d => { d with constructors := d.constructors ++ [constructor] }) types owner

/-- The types of a text, to which members are given one after the other. -/
def types? : Option (List TypeDeclaration) := do
  let types ← (site.language.typeHeaders site.masked).mapM site.typeOf?
  if site.ownership.isEmpty then return types
  let types ← (← site.language.methodHeaders? site.masked).foldlM site.addMethod? types
  (← site.language.constructorHeaders? site.masked).foldlM site.addConstructor? types

variable {site} {header : TypeHeader} {member : MemberHeader}

theorem collectLeading?_attributes {place : Cursor} (h : place.IsIn site.masked) :
    collectLeading? site.masked place.offset site.language.attributeMark =
      some (site.attributes place) := by
  rw [collectLeading?_eq, leadingAttributes, ← h.before_eq, attributes]

theorem typeOf?_eq (h : header.place.IsIn site.masked) :
    site.typeOf? header = some (site.typeOf header) := by
  have components : header.components.elim (some []) site.language.parseParameters? =
      some ((header.components.map site.language.parseParameters).getD []) := by
    cases header.components with
    | none => rfl
    | some list => exact site.language.parseParameters?_eq list
  rw [typeOf?, components, TypeHeader.start, collectLeading?_attributes h]
  rfl

theorem methodOf?_eq (h : member.place.IsIn site.masked) :
    site.methodOf? member = some (site.methodOf member) := by
  rw [methodOf?, MemberHeader.start, collectLeading?_attributes h, Language.parseParameters?_eq]
  rfl

theorem constructorOf?_eq (h : member.place.IsIn site.masked) :
    site.constructorOf? member = some (site.constructorOf member) := by
  rw [constructorOf?, MemberHeader.start, collectLeading?_attributes h,
    Language.parseParameters?_eq]
  rfl

theorem lookUp?_ownership (offset : Nat) :
    site.ownership.lookUp? offset = some (site.ownership.ownerOf? offset) :=
  Ownership.lookUp?_ofStarts _ offset

/-- An owner is the index of a type. -/
theorem exists_header_of_owner {offset owner : Nat}
    (h : site.ownership.ownerOf? offset = some owner) :
    ∃ header, (site.language.typeHeaders site.masked)[owner]? = some header := by
  obtain ⟨_, start, -⟩ := (Ownership.ownerOf?_eq_some_iff ..).mp h
  rw [List.getElem?_map] at start
  obtain ⟨header, found, -⟩ := Option.map_eq_some_iff.mp start
  exact ⟨header, found⟩

/-! ### Runs -/

variable {ms ms' cs cs' : List MemberHeader} {index : Nat}

/-- The members that a type owns, given its place in the list of types. -/
def owned (site : Site) (members : List MemberHeader) (index : Nat) : List MemberHeader :=
  members.filter fun m => site.ownership.ownerOf? m.start = some index

/-- A type with the members that it owns among those of some headers. -/
def typeWith (site : Site) (ms cs : List MemberHeader) (header : TypeHeader) (index : Nat) :
    TypeDeclaration :=
  { site.typeOf header with
    methods := (site.owned ms index).map site.methodOf
    constructors := (constructorHeaders header.name (site.owned cs index)).map site.constructorOf }

/-- The types of a text, each with the members that it owns among those of some headers. -/
def typesWith (site : Site) (ms cs : List MemberHeader) : List TypeDeclaration :=
  (site.language.typeHeaders site.masked).zipIdx.map fun (header, index) =>
    site.typeWith ms cs header index

theorem typesWith_nil (site : Site) :
    site.typesWith [] [] = (site.language.typeHeaders site.masked).map site.typeOf := by
  conv_rhs => rw [← List.zipIdx_map_fst 0 (site.language.typeHeaders site.masked), List.map_map]
  rfl

/-- The types with all their members. -/
theorem typesWith_headers (site : Site) :
    site.typesWith site.methodHeaders (site.language.constructorHeaders site.masked) =
      site.types := by
  rw [Site.types]
  simp only [filterMap_owner]
  rfl

theorem getElem?_typesWith (site : Site) (ms cs : List MemberHeader) (index : Nat) :
    (site.typesWith ms cs)[index]? =
    (site.language.typeHeaders site.masked)[index]?.map fun header =>
      site.typeWith ms cs header index := by
  rw [typesWith, List.getElem?_map, List.getElem?_zipIdx, Option.map_map, Nat.zero_add]
  rfl

theorem owned_append_self (h : site.ownership.ownerOf? member.start = some index)
    (members : List MemberHeader) :
    site.owned (members ++ [member]) index = site.owned members index ++ [member] := by
  rw [owned, List.filter_append, List.filter_cons_of_pos (by simpa using h)]
  rfl

theorem owned_append_other (h : site.ownership.ownerOf? member.start ≠ some index)
    (members : List MemberHeader) :
    site.owned (members ++ [member]) index = site.owned members index := by
  rw [owned, List.filter_append, List.filter_cons_of_neg (by simpa using h), List.filter_nil,
    List.append_nil]
  rfl

theorem constructorHeaders_append (name : Text) (members members' : List MemberHeader) :
    constructorHeaders name (members ++ members') = constructorHeaders name members ++
      constructorHeaders name members' :=
  List.filter_append ..

/-- A member changes no other type than its owner. -/
theorem typeWith_append_other (h : site.ownership.ownerOf? member.start ≠ some index)
    (ms cs : List MemberHeader) (header : TypeHeader) :
    site.typeWith ms cs header index = site.typeWith (ms ++ [member]) cs header index ∧
      site.typeWith ms cs header index = site.typeWith ms (cs ++ [member]) header index := by
  simp only [typeWith, owned_append_other h, and_self]

theorem typesWith_congr
    (h : ∀ header index, (site.language.typeHeaders site.masked)[index]? = some header →
    site.typeWith ms cs header index = site.typeWith ms' cs' header index) :
      site.typesWith ms cs = site.typesWith ms' cs' := by
  refine List.ext_getElem? fun index => ?_
  rw [getElem?_typesWith, getElem?_typesWith]
  cases found : (site.language.typeHeaders site.masked)[index]? with
  | none => rfl
  | some header => exact congrArg some (h header index found)

/-- One type of the list is changed where it stands. -/
theorem changeAt?_typesWith {change : TypeDeclaration → TypeDeclaration}
    (found : (site.language.typeHeaders site.masked)[index]? = some header)
    (here : change (site.typeWith ms cs header index) = site.typeWith ms' cs' header index)
    (others : ∀ other i, i ≠ index → site.typeWith ms cs other i = site.typeWith ms' cs' other i) :
    changeAt? change (site.typesWith ms cs) index = some (site.typesWith ms' cs') := by
  have bound : index < (site.typesWith ms cs).length := by
    have := (List.getElem?_eq_some_iff.mp found).1
    simpa [typesWith] using this
  rw [changeAt?, if_pos bound]
  refine congrArg some (List.ext_getElem? fun i => ?_)
  rw [List.getElem?_modify, getElem?_typesWith, getElem?_typesWith]
  by_cases hi : index = i
  · subst hi
    simp [found, here]
  · simp only [if_neg hi, others _ i (Ne.symm hi), id_map']

/-- A member without an owner changes no type. -/
theorem typesWith_append_unowned (h : site.ownership.ownerOf? member.start = none)
    (ms cs : List MemberHeader) :
    site.typesWith ms cs = site.typesWith (ms ++ [member]) cs ∧
      site.typesWith ms cs = site.typesWith ms (cs ++ [member]) :=
  ⟨typesWith_congr fun header _ _ => (typeWith_append_other (by simp [h]) ms cs header).1,
    typesWith_congr fun header _ _ => (typeWith_append_other (by simp [h]) ms cs header).2⟩

/-- A header that constructs no type of the name of its owner changes no type. -/
theorem typesWith_append_passed (owner : site.ownership.ownerOf? member.start = some index)
    (found : (site.language.typeHeaders site.masked)[index]? = some header)
    (none : constructorHeaders header.name [member] = [])
    (ms cs : List MemberHeader) : site.typesWith ms cs = site.typesWith ms (cs ++ [member]) := by
  refine typesWith_congr fun other i hm => ?_
  by_cases hi : index = i
  · subst hi
    obtain rfl := Option.some.inj (found.symm.trans hm)
    rw [typeWith, typeWith, owned_append_self owner, constructorHeaders_append, none,
      List.append_nil]
  · exact (typeWith_append_other (by simpa [owner] using hi) ms cs other).2

/-- The method of one more header is given to its owner. -/
theorem addMethod?_typesWith (h : member.place.IsIn site.masked) (ms cs : List MemberHeader) :
    site.addMethod? (site.typesWith ms cs) member =
      some (site.typesWith
        (ms ++ [member].filter fun m => !isStatementLike site.language.methodModifiers m) cs) := by
  rw [addMethod?]
  by_cases statement : isStatementLike site.language.methodModifiers member = true
  · rw [if_pos statement, List.filter_cons_of_neg (by simp [statement]), List.filter_nil,
      List.append_nil]
    rfl
  · rw [if_neg statement, List.filter_cons_of_pos (by simp [statement]), List.filter_nil,
      lookUp?_ownership]
    cases owner : site.ownership.ownerOf? member.start with
    | none => exact congrArg some (typesWith_append_unowned owner ms cs).1
    | some index =>
      obtain ⟨header, found⟩ := exists_header_of_owner owner
      rw [Option.bind_eq_bind, Option.bind_some, methodOf?_eq h]
      refine changeAt?_typesWith found ?_ fun other i hi => ?_
      · simp [typeWith, owned_append_self owner]
      · exact (typeWith_append_other (by simpa [owner] using Ne.symm hi) ms cs other).1

/-- The constructor of one more header is given to its owner. -/
theorem addConstructor?_typesWith (h : member.place.IsIn site.masked) (ms cs : List MemberHeader) :
    site.addConstructor? (site.typesWith ms cs) member =
      some (site.typesWith ms (cs ++ [member])) := by
  rw [addConstructor?, lookUp?_ownership]
  cases owner : site.ownership.ownerOf? member.start with
  | none => exact congrArg some (typesWith_append_unowned owner ms cs).2
  | some index =>
    obtain ⟨header, found⟩ := exists_header_of_owner owner
    have declaration :
        (site.typesWith ms cs)[index]? = some (site.typeWith ms cs header index) := by
      rw [getElem?_typesWith, found, Option.map_some]
    have name : (site.typeWith ms cs header index).name = header.name := rfl
    simp only [Option.bind_eq_bind, Option.bind_some, declaration, name, isCreationAt?_eq h]
    by_cases same : member.name = header.name
    · rw [if_neg (not_not.mpr same)]
      by_cases creation : isCreationLike member = true
      · have none : constructorHeaders header.name [member] = [] :=
          List.filter_cons_of_neg (by simp [creation])
        rw [if_pos creation]
        exact congrArg some (typesWith_append_passed owner found none ms cs)
      · have kept : constructorHeaders header.name [member] = [member] :=
          List.filter_cons_of_pos (by simp [same, creation])
        rw [if_neg creation, constructorOf?_eq h]
        refine changeAt?_typesWith found ?_ fun other i hi => ?_
        · simp [typeWith, owned_append_self owner, constructorHeaders_append, kept]
        · exact (typeWith_append_other (by simpa [owner] using Ne.symm hi) ms cs other).2
    · have none : constructorHeaders header.name [member] = [] :=
        List.filter_cons_of_neg (by simp [same])
      rw [if_pos same]
      exact congrArg some (typesWith_append_passed owner found none ms cs)

/-- The types of a text are made without failing. -/
theorem types?_eq (site : Site) : site.types? = some site.types := by
  have bare :
      (site.language.typeHeaders site.masked).mapM site.typeOf? = some (site.typesWith [] []) := by
    rw [typesWith_nil]
    exact mapM_eq_some_map fun header hh =>
      typeOf?_eq (site.language.isIn_of_mem_typeHeaders site.masked hh)
  let noStatement (m : MemberHeader) : Bool := !isStatementLike site.language.methodModifiers m
  have methodStep : ∀ m ∈ site.language.methodHeaders site.masked, ∀ ms : List MemberHeader,
      site.addMethod? (site.typesWith (ms.filter noStatement) []) m =
        some (site.typesWith ((ms ++ [m]).filter noStatement) []) := fun m hm ms => by
    rw [List.filter_append]
    exact addMethod?_typesWith (site.language.isIn_of_mem_methodHeaders site.masked hm) _ []
  have constructorStep : ∀ c ∈ site.language.constructorHeaders site.masked,
      ∀ cs : List MemberHeader,
      site.addConstructor? (site.typesWith site.methodHeaders cs) c =
        some (site.typesWith site.methodHeaders (cs ++ [c])) := fun c hc cs =>
    addConstructor?_typesWith (site.language.isIn_of_mem_constructorHeaders site.masked hc) _ cs
  have methods := foldlM_eq_some (fun ms => site.typesWith (ms.filter noStatement) []) methodStep []
  have constructors := foldlM_eq_some (site.typesWith site.methodHeaders) constructorStep []
  rw [types?, bare, ← typesWith_headers, Option.bind_eq_bind, Option.bind_some]
  by_cases none : site.ownership.isEmpty = true
  · have headers : site.language.typeHeaders site.masked = [] := by
      rw [ownership, Ownership.isEmpty_ofStarts, List.isEmpty_iff, List.map_eq_nil_iff] at none
      exact none
    rw [if_pos none, typesWith, typesWith, headers]
    rfl
  · rw [if_neg none, Language.methodHeaders?_eq, Language.constructorHeaders?_eq]
    exact (congrArg (Option.bind · _) methods).trans constructors

end Site

/-- The summary of a text, made step by step with every cut, index and difference checked. -/
def summarize? (language : Language) (path t : Text) : Option FileSummary := do
  let site := Site.ofText language t
  let types ← site.types?
  return ⟨path, language, language.scope? site.masked, types, none⟩

/-- No step of an extraction fails, whatever the text is: every cut is at boundaries in order, every
owner is the index of a type, and no offset and no depth falls below zero; what the steps make is
the summary. Nor does a step fail when the attributes above an offset are collected, or when it is
told whether an offset is inside of an attribute, for any offset. -/
theorem extraction_never_fails :
    (∀ language path t, summarize? language path t = some (summarize language path t)) ∧
      (∀ t offset mark, collectLeading? t offset mark = some (leadingAttributes t offset mark)) ∧
      ∀ t offset, insideAttribute? t offset = some (insideAttribute t offset) := by
  refine ⟨fun language path t => ?_, collectLeading?_eq, insideAttribute?_eq⟩
  rw [summarize?, Site.types?_eq]
  rfl

end Source

end SourceSurvey
