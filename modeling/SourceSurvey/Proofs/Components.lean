import SourceSurvey.Proofs.Brackets
import SourceSurvey.Proofs.CSharpType
import SourceSurvey.Proofs.HeaderText
import SourceSurvey.Proofs.LineFront
import SourceSurvey.Proofs.MaskJoin

/-! Record components and parameters. The list of a method may hold parentheses that are not nested,
that of a record ends at the first closing one. So a class whose only member is a method with some
list reports its parameters, and a record with the same list reports them as its components exactly
where the list holds no parentheses. -/

namespace SourceSurvey.Source

open Text Pattern

variable {language : Language} {a b t list name : Text} {c : Char}

/-! ### Lists in a header -/

/-- Around a list behind which code goes on, text that begins no sign is kept. -/
theorem mask_around (ha : ∀ c ∈ a, Inert language c)
    (hl : standingAfter language .code list = .code)
    (hb : ∀ c ∈ b, Inert language c) (hs : EndsNoSign b) :
    mask language (a ++ (list ++ b)) = a ++ (mask language list ++ b) := by
  have behind : mask language b = b := by
    have kept := mask_inert_append hb []
    rwa [List.append_nil, mask, mask, maskFrom, List.append_nil] at kept
  have joined : mask language (list ++ b) = mask language list ++ mask language b :=
    maskFrom_join hl hs
  rw [mask_inert_append ha, joined, behind]

theorem exists_mem_piecesFrom (hc : c ≠ ',') (depth : Nat) (t : Text) :
    (∃ p ∈ piecesFrom depth t, c ∈ p) ↔ c ∈ t := by
  induction t generalizing depth with
  | nil => simp [piecesFrom]
  | cons d t ih =>
    by_cases hd : d = ',' ∧ depth = 0
    · rw [piecesFrom, if_pos hd, List.exists_mem_cons_iff, ih 0, List.mem_cons]
      simp [hd.1, hc]
    · rw [piecesFrom, if_neg hd, List.mem_cons, ← ih (angleDepth depth d)]
      cases hp : piecesFrom (angleDepth depth d) t with
      | nil => exact absurd hp (piecesFrom_ne_nil _ t)
      | cons p ps =>
        rw [List.modifyHead_cons, List.exists_mem_cons_iff, List.exists_mem_cons_iff,
          List.mem_cons, or_assoc]

theorem mem_trim_iff (hc : isBlank c = false) (t : Text) : c ∈ trim t ↔ c ∈ t := by
  have told : ∀ u : Text, c ∈ u ↔ c ∈ (words u).flatten := fun u => by simp [flatten_words, hc]
  rw [told, words_trim, ← told]

/-- A character that is neither a blank nor a comma stands in the text of some parameter if it
stands in the list. -/
theorem exists_mem_raw (hb : isBlank c = false) (hc : c ≠ ',') (t : Text) :
    (∃ p ∈ language.parseParameters t, c ∈ p.raw) ↔ c ∈ t := by
  rw [← exists_mem_piecesFrom hc 0 t, Language.parseParameters, splitParameters]
  constructor
  · rintro ⟨p, hp, hm⟩
    obtain ⟨e, he, rfl⟩ := List.mem_map.mp hp
    obtain ⟨piece, hpiece, rfl⟩ := List.mem_map.mp (List.mem_of_mem_filter he)
    rw [raw_parseParameter, mem_trim_iff hb, mem_trim_iff hb] at hm
    exact ⟨piece, hpiece, hm⟩
  · rintro ⟨piece, hpiece, hm⟩
    have kept : c ∈ trim piece := (mem_trim_iff hb piece).mpr hm
    have entry : trim piece ∈ ((piecesFrom 0 t).map trim).filter (· ≠ []) :=
      List.mem_filter.mpr ⟨List.mem_map_of_mem hpiece, by simpa using List.ne_nil_of_mem kept⟩
    refine ⟨_, List.mem_map_of_mem entry, ?_⟩
    rwa [raw_parseParameter, mem_trim_iff hb]

/-! ### The only method of a class -/

/-- A class whose only member is a method with a list. -/
def classText (name list : Text) : Text :=
  "class ".toList ++ (name ++ (" \x7b void m(".toList ++ (list ++ ") \x7b\x7d \x7d".toList)))

/-- What stands in front of the method. -/
def classFront (name : Text) : Text := "class ".toList ++ (name ++ " \x7b ".toList)

/-- The method and what stands behind it. -/
def methodText (list : Text) : Text :=
  "void m".toList ++ '(' :: (list ++ ')' :: " \x7b\x7d \x7d".toList)

theorem classText_eq (name list : Text) :
    classText name list = classFront name ++ methodText list := by
  unfold classText classFront methodText
  simp

theorem classFront_eq (name : Text) :
    classFront name = "class ".toList ++ (name ++ [' ', '\x7b', ' ']) := rfl

theorem methodText_eq (list : Text) :
    methodText list = "void m".toList ++ '(' :: (list ++ ')' :: " \x7b\x7d \x7d".toList) := rfl

theorem mask_classText (hn : isIdentifier name = true)
    (hl : standingAfter language .code list = .code) :
    mask language (classText name list) = classText name (mask language list) := by
  have split :
      ∀ list, classText name list = ("class ".toList ++ (name ++ " \x7b void m(".toList)) ++
      (list ++ ") \x7b\x7d \x7d".toList) := fun list => by
    unfold classText
    simp
  have fixed : (∀ c ∈ "class ".toList, Inert language c) ∧
      (∀ c ∈ " \x7b void m(".toList, Inert language c) ∧
      ∀ c ∈ ") \x7b\x7d \x7d".toList, Inert language c := by cases language <;> decide
  have front : ∀ c ∈ "class ".toList ++ (name ++ " \x7b void m(".toList), Inert language c := by
    simp only [List.forall_mem_append]
    exact ⟨fixed.1, fun c hc => inert_of_isWord (isWord_of_isIdentifier hn c hc), fixed.2.1⟩
  rw [split, split, mask_around front hl fixed.2.2 (by decide)]

theorem shy_methodPattern (language : Language) : Shy isBlank language.methodPattern := by
  cases language with
  | csharp => exact CSharp.shy_methodPattern outside_isBlank
  | java => exact Java.shy_methodPattern outside_isBlank

/-- No method header begins in front of the method. -/
theorem matchAt_classFront (hn : isIdentifier name = true) {here : Cursor}
    (hin : here.IsIn (classFront name)) (hr : here.rest ≠ []) (list : Text) :
    language.methodPattern.matchAt (here.within [] (methodText list)) = none := by
  cases hm : language.methodPattern.matchAt (here.within [] (methodText list)) with
  | none => rfl
  | some m =>
    obtain ⟨w, hw, hrest⟩ := (reaches_of_matchAt hm).exists_reads
    have first := (shy_methodPattern language).head?_any hw
    obtain ⟨head, inner, body, last, rfl, hhead, -⟩ := exists_method_of_reads hw
    have whole :
        here.before.reverse ++ here.rest = ("class ".toList ++ (name ++ [' '])) ++
          '\x7b' :: [' '] := by
      rw [hin.1, classFront_eq]
      simp
    rw [Cursor.rest_within] at hrest
    rcases exists_of_append_eq whole with ⟨z, -, hz⟩ | ⟨front, hfront, behind⟩
    · -- behind the brace there is only a blank
      have blank : here.rest = [' '] :=
        ((List.append_eq_singleton_iff.mp hz.symm).resolve_right fun h => hr h.2).2
      rw [blank] at hrest
      cases head with
      | nil => exact absurd (List.cons.inj hrest).1 (by decide)
      | cons d head =>
        have space : isBlank d = false := by simpa using first
        rw [← (List.cons.inj hrest).1] at space
        exact absurd space (by decide)
    · have noList : '(' ∉ front := fun hm => by
        have plain : '(' ∈ "class ".toList ++ (name ++ [' ']) := by
          rw [hfront]
          exact List.mem_append_right _ hm
        simp only [List.mem_append] at plain
        rcases plain with hm | hm | hm
        · exact absurd hm (by decide)
        · exact isSign_parenthesis.notMem_identifier hn hm
        · exact absurd hm (by decide)
      have noBrace : '\x7b' ∉ head := fun hm => hhead _ hm (by decide)
      rw [behind, List.append_assoc, List.append_assoc] at hrest
      exact absurd hrest (append_sign_ne (by decide) noList noBrace)

/-- The header of the method in Java. -/
def Java.voidMethod (list : Text) : Java.MethodText where
  modifiers := []
  typeParameters := none
  returnType := "void".toList
  beforeName := [' ']
  name := ['m']
  beforeList := []
  parameters := list
  beforeThrows := []
  afterThrows := [' ']
  thrown := []
  beforeEnd := [' ']
  ending := '\x7b'

theorem Java.isWritten_voidMethod (hf : isFlat list = true) : (Java.voidMethod list).IsWritten where
  modifiers := (by decide : RunOf Java.methodModifiers [])
  typeParameters := fun _ hp => absurd hp (by simp [Java.voidMethod])
  closing := fun _ hp => absurd hp (by simp [Java.voidMethod])
  returnType := (by decide : isTypeText Java.typeSigns "void".toList = true)
  returnTypeEnd := (by decide : ∀ c ∈ "void".toList.getLast?, isBlank c = false)
  returnTypeWords := (by decide : ∀ w ∈ words "void".toList, w ∉ Java.methodModifiers)
  beforeName := (by decide : Blank [' '] ∧ [' '] ≠ [])
  name := (by decide : isIdentifier ['m'] = true)
  beforeList := (by decide : Blank [])
  parameters := hf
  beforeThrows := (by decide : Blank [])
  afterThrows := (by decide : Blank [' '] ∧ [' '] ≠ [])
  thrown := fun _ ht => absurd ht List.not_mem_nil
  beforeEnd := (by decide : Blank [' '])
  ending := (by decide : '\x7b' ∈ ['\x7b', ';'])

/-- The header of the method in C#. -/
def CSharp.voidMethod (list : Text) : CSharp.MethodText where
  modifiers := []
  returnType := "void".toList
  beforeName := [' ']
  name := ['m']
  typeParameters := none
  beforeList := []
  parameters := list
  beforeWhere := []
  afterWhere := [' ']
  constraints := none
  beforeEnd := [' ']
  ending := ['\x7b']

theorem CSharp.isWritten_voidMethod (hf : isFlat list = true) :
    (CSharp.voidMethod list).IsWritten where
  modifiers := (by decide : RunOf CSharp.methodModifiers [])
  returnType := (by decide : isTypeText CSharp.typeSigns "void".toList = true)
  returnTypeEnd := (by decide : ∀ c ∈ "void".toList.getLast?, isBlank c = false)
  returnTypeWords := (by decide : ∀ w ∈ words "void".toList, w ∉ CSharp.methodModifiers)
  beforeName := (by decide : Blank [' '] ∧ [' '] ≠ [])
  name := (by decide : isIdentifier ['m'] = true)
  typeParameters := fun _ hp => absurd hp (by simp [CSharp.voidMethod])
  beforeList := (by decide : Blank [])
  parameters := hf
  beforeWhere := (by decide : Blank [])
  afterWhere := (by decide : Blank [' '] ∧ [' '] ≠ [])
  constraints := fun _ ht => absurd ht (by simp [CSharp.voidMethod])
  beforeEnd := (by decide : Blank [' '])
  ending := (by decide : ['\x7b'] ∈ [['\x7b'], ['=', '>'], [';']])

/-- The first header of a text, if it begins with the text, is read off the match there. -/
theorem exists_matchAt_of_head? {p : Pattern Slot} {header : MemberHeader}
    (h : (memberHeaders p t).head? = some header) (hp : header.place = Cursor.ofText t) :
    ∃ m, p.matchAt (Cursor.ofText t) = some m ∧ MemberHeader.ofMatch m = header := by
  obtain ⟨m, hm, rfl⟩ := List.mem_map.mp (List.mem_of_head? h)
  obtain ⟨here, -, hc⟩ := exists_matchAt_of_mem hm
  have place : here = Cursor.ofText t := (first_of_matchAt hc).symm.trans hp
  exact ⟨m, place ▸ hc, rfl⟩

/-- The method is read at its beginning. -/
theorem exists_matchAt_methodText (language : Language) (hf : isFlat list = true) : ∃ m,
    language.methodPattern.matchAt (Cursor.ofText (methodText list)) = some m ∧
      (MemberHeader.ofMatch m).name = ['m'] ∧ (MemberHeader.ofMatch m).parameters = list ∧
      (MemberHeader.ofMatch m).returnType = some "void".toList := by
  cases language with
  | java =>
    obtain ⟨e, hrun, header⟩ :=
      Java.exists_run_text (Java.isWritten_voidMethod hf) "\x7d \x7d".toList
    have text : (Java.voidMethod list).text ++ "\x7d \x7d".toList = methodText list := by
      simp [Java.voidMethod, Java.MethodText.text, Java.MethodText.typeParametersText,
        Java.MethodText.thrownText, spaced, methodText_eq]
    rw [text] at hrun header
    refine ⟨⟨_, e⟩, congrArg (Option.map _) hrun, ?_⟩
    rw [header]
    exact ⟨rfl, rfl, (by decide : some (collapse "void".toList) = some "void".toList)⟩
  | csharp =>
    have head :=
      CSharp.head?_methodHeaders_of_plain (CSharp.isWritten_voidMethod hf)
        (.inl rfl) "\x7d \x7d".toList
    have text : (CSharp.voidMethod list).text ++ "\x7d \x7d".toList = methodText list := by
      simp [CSharp.voidMethod, CSharp.MethodText.text, CSharp.MethodText.nameAndList,
        CSharp.MethodText.list, CSharp.MethodText.tail, CSharp.MethodText.typeParametersText,
          CSharp.MethodText.constraintsText, spaced, methodText_eq]
    obtain ⟨m, hm, header⟩ := exists_matchAt_of_head? head rfl
    rw [text] at hm
    refine ⟨m, hm, ?_⟩
    rw [header]
    exact ⟨rfl, rfl, (by decide : some (collapse "void".toList) = some "void".toList)⟩

/-- Behind the match of the method stands the rest of the bodies. -/
theorem rest_of_matchAt_methodText (hf : isFlat list = true) {m : Match Slot}
    (hm : language.methodPattern.matchAt (Cursor.ofText (methodText list)) = some m) :
    m.ending.last.rest = "\x7d \x7d".toList := by
  obtain ⟨w, hw, hrest⟩ := (reaches_of_matchAt hm).exists_reads
  obtain ⟨head, inner, body, last, rfl, hhead, hinner, hbody, hlast⟩ := exists_method_of_reads hw
  have whole : "void m".toList ++ '(' :: (list ++ ')' :: " \x7b\x7d \x7d".toList) =
      head ++ '(' :: (inner ++ ')' :: (body ++ last :: m.ending.last.rest)) := by
    rw [← methodText_eq, show methodText list = _ from hrest]
    simp
  obtain ⟨-, lists⟩ := append_sign_inj (by decide) (fun hm => hhead _ hm (by decide)) whole
  have signs : " \x7b\x7d \x7d".toList = [' ', '\x7b', '\x7d', ' ', '\x7d'] := by decide
  obtain ⟨-, behind⟩ := (flat_of_isFlat hf).append_inj hinner lists
  rw [signs] at behind
  cases body with
  | nil =>
    rw [← (List.cons.inj behind).1] at hlast
    exact absurd hlast (by decide)
  | cons b body =>
    obtain ⟨-, behind⟩ := List.cons.inj behind
    cases body with
    | nil => exact (List.cons.inj behind).2.symm.trans (by decide)
    | cons b' body => exact absurd ((List.cons.inj behind).1 ▸ by decide) (hbody b' (by simp))

/-- A search from the method on finds the method and nothing behind it. -/
theorem matchesUnless_methodText (hf : isFlat list = true) {refuses : Cursor → Bool}
    (hr : refuses (Cursor.ofText (methodText list)) = false) {m : Match Slot}
    (hm : language.methodPattern.matchAt (Cursor.ofText (methodText list)) = some m) :
    language.methodPattern.matchesUnless refuses (methodText list) = [m] := by
  obtain ⟨places, hplaces⟩ :
      ∃ places, Cursor.places (methodText list) = Cursor.ofText (methodText list) :: places := by
    cases methodText list <;> exact ⟨_, rfl⟩
  have later : ∀ n ∈ places.filterMap language.methodPattern.matchAt, n.start < resumeAfter m := by
    intro n hn
    by_contra late
    obtain ⟨here, hh, hn⟩ := List.mem_filterMap.mp hn
    have place : here.IsIn (methodText list) :=
      Cursor.isIn_of_mem_places (hplaces ▸ List.mem_cons_of_mem _ hh)
    obtain ⟨e, e', hl⟩ := reaches_of_matchAt hm
    have behind : m.ending.last.offset ≤ here.offset := by
      have start : n.start = here.offset := by rw [Match.start, first_of_matchAt hn]
      have stop : m.stop ≤ resumeAfter m := by rw [resumeAfter]; split <;> omega
      rw [Match.stop] at stop
      omega
    -- a further method would have a parenthesis behind the braces
    obtain ⟨w, hw, hrest⟩ := (reaches_of_matchAt hn).exists_reads
    obtain ⟨head, inner, body, last, rfl, -⟩ := exists_method_of_reads hw
    have suffix := (hl.isIn (Cursor.isIn_ofText _)).rest_suffix place behind
    rw [rest_of_matchAt_methodText hf hm, hrest] at suffix
    exact absurd (suffix.subset (by simp : '(' ∈ _)) (by decide)
  have first : refuses m.first = false := by rw [first_of_matchAt hm, hr]
  have passed :
      select refuses (resumeAfter m) (places.filterMap language.methodPattern.matchAt ++ []) = [] :=
    select_append_of_passed fun n hn => .inl (later n hn)
  rw [List.append_nil] at passed
  rw [matchesUnless, candidates_eq, hplaces, List.filterMap_cons_some hm, select, passed]
  simp [first]

/-- A text that does not begin with an at sign and holds no square bracket ends in no attribute. -/
theorem endsInAttribute_eq_false (hs : ∀ c ∈ t, c ∉ ['[', ']']) (hm : t.head? ≠ some '@') :
    endsInAttribute t = false := by
  have depth : lineDepth t.reverse ≤ t.reverse.foldl squareDepth 0 :=
    lineDepth_append_le [] t.reverse
  rw [foldl_squareDepth fun c hc => hs c (List.mem_reverse.mp hc)] at depth
  have told := endsInAttribute_reverse t.reverse
  rw [List.reverse_reverse, List.getLast?_reverse, Nat.le_zero.mp depth] at told
  rw [told, decide_eq_false hm]
  rfl

/-- The method is the only one that is found in the class. -/
theorem exists_methodMatches_classText (language : Language) (hn : isIdentifier name = true)
    (hf : isFlat list = true) :
    ∃ m, language.methodMatches (classText name list) = [m] ∧
      (MemberHeader.ofMatch m).name = ['m'] ∧
      (MemberHeader.ofMatch m).parameters = list ∧
        (MemberHeader.ofMatch m).returnType = some "void".toList := by
  obtain ⟨m, hm, header⟩ := exists_matchAt_methodText language hf
  have free : language.methodPattern.looksForLine = false := by cases language <;> decide
  have last : ∀ c ∈ (classFront name).getLast?, isWord c = false := by
    intro c hc
    have front : classFront name = ("class ".toList ++ (name ++ [' ', '\x7b'])) ++ [' '] := by
      simp [classFront_eq]
    rw [front, List.getLast?_concat] at hc
    exact Option.mem_some_iff.mp hc ▸ by decide
  have outside :
      endsInAttribute
        ((Cursor.ofText (methodText list)).within (classFront name) []).before = false := by
    have word : ∀ c ∈ name, c ∉ ['[', ']'] :=
      fun c hc => notMem_squares_of_isWord (isWord_of_isIdentifier hn c hc)
    have front : ∀ c ∈ classFront name, c ∉ ['[', ']'] := by
      rw [classFront_eq, List.forall_mem_append, List.forall_mem_append]
      exact ⟨by decide, word, by decide⟩
    exact endsInAttribute_eq_false (fun c hc => front c (by simpa [Cursor.ofText] using hc))
      (by simp [classFront_eq, Cursor.ofText])
  have found : language.methodMatches (classText name list) = [m.within (classFront name) []] := by
    rw [Language.methodMatches, classText_eq,
      matchesUnless_skip free last fun here hin hr => .inl (matchAt_classFront hn hin hr list),
      matchesUnless_methodText hf outside hm]
    rfl
  refine ⟨_, found, ?_⟩
  rw [ofMatch_within (marksIn_of_matchAt hm (Cursor.isIn_ofText _))]
  exact header

/-! ### The first type -/

/-- A type header without modifiers and clauses in Java. -/
def Java.bareType (kind : TypeKind) (name : Text) (components : Option Text) : Java.TypeText where
  modifiers := []
  kind := kind
  name :=
    { beforeName := [' '], name := name, typeParameters := none,
      components := components.map ([], ·) }
  parents := { before := [' '], after := [' '], supertypes := [] }
  interfaces := { before := [' '], after := [' '], supertypes := [] }
  permitted := { before := [' '], after := [' '], supertypes := [] }
  beforeEnd := [' ']

/-- A type header without modifiers and clauses in C#. -/
def CSharp.bareType (kind : TypeKind) (name : Text) (components : Option Text) :
    CSharp.TypeText where
  modifiers := []
  kind := kind
  sort := none
  name :=
    { beforeName := [' '], name := name, typeParameters := none,
      components := components.map ([], ·) }
  bases := { before := [' '], after := [' '], supertypes := [] }
  constraints := none
  beforeEnd := [' ']
  ending := '\x7b'

theorem isWritten_bareName {signs : Text} {keys : List Text} {components : Option Text}
    (hn : isIdentifier name = true)
    (hc : ∀ list ∈ components, ')' ∉ list) : NameText.IsWritten signs keys
      { beforeName := [' '], name := name, typeParameters := none,
        components := components.map ([], ·) } where
  beforeName := (by decide : Blank [' '] ∧ [' '] ≠ [])
  name := hn
  typeParameters := fun _ hp => absurd hp (by simp)
  closing := fun _ hp => absurd hp (by simp)
  components := fun p hp => by
    obtain ⟨list, hl, rfl⟩ := Option.map_eq_some_iff.mp hp
    exact ⟨(by decide : Blank []), hc list hl⟩

theorem isWritten_noClause {keys : List Text} :
    ClauseText.IsWritten keys { before := [' '], after := [' '], supertypes := [] } :=
  ⟨(by decide : Blank [' ']), (by decide : Blank [' ']), fun _ ht => absurd ht List.not_mem_nil⟩

/-- The text of such a header, of which the components may be left out. -/
def bareText (kind : TypeKind) (name : Text) (components : Option Text) : Text :=
  kind.keyword ++ ' ' :: (name ++ (listText components ++ [' ', '\x7b']))

/-- The first type that is found has the kind, the name and the components with which the text
begins. -/
theorem exists_head?_bareText (language : Language) (kind : TypeKind) (components : Option Text)
    (hk : kind ∈ [TypeKind.classType, .recordType]) (hn : isIdentifier name = true)
    (hs : language = .csharp → name ∉ CSharp.recordSorts) (hc : ∀ list ∈ components, ')' ∉ list)
    (trailing : Text) :
    ∃ header,
      (language.typeHeaders (bareText kind name components ++ trailing)).head? = some header ∧
        header.start = 0 ∧ header.kind = kind ∧ header.name = name ∧
        header.components = components := by
  have kinds : kind ≠ .structType ∧ kind ≠ .annotationType := by
    rcases List.mem_pair.mp hk with rfl | rfl <;> decide
  cases language with
  | java =>
    have written : (Java.bareType kind name components).IsWritten := {
      modifiers := (by decide : RunOf Java.typeModifiers [])
      kind := kinds.1
      name := isWritten_bareName hn hc
      parents := isWritten_noClause
      interfaces := isWritten_noClause
      permitted := isWritten_noClause
      gaps := fun c hm => by
        simp only [Java.bareType, List.mem_cons, List.not_mem_nil, or_false, or_self] at hm
        rw [hm]
        exact ⟨by simp, by simp⟩
      beforeEnd := (by decide : Blank [' ']) }
    have text : (Java.bareType kind name components).text = bareText kind name components := by
      cases components <;>
        simp [Java.bareType, Java.TypeText.text, Java.TypeText.clausesText, NameText.text,
        NameText.typeParametersText, NameText.componentsText, ClauseText.text, spaced,
          bareText, listText]
    have head := Java.head?_typeHeaders_text written trailing
    rw [text] at head
    refine ⟨_, head, rfl, rfl, rfl, ?_⟩
    cases components <;> rfl
  | csharp =>
    have written : (CSharp.bareType kind name components).IsWritten := {
      modifiers := (by decide : RunOf CSharp.typeModifiers [])
      kind := kinds.2
      sort := fun _ hp => absurd hp (by simp [CSharp.bareType])
      name := isWritten_bareName hn hc
      noSort := hs rfl
      bases := isWritten_noClause
      constraints := fun _ hp => absurd hp (by simp [CSharp.bareType])
      beforeEnd := (by decide : Blank [' '])
      ending := (by decide : '\x7b' ∈ ['\x7b', ';'])
      body := fun h => absurd h (by decide : '\x7b' ≠ ';') }
    have text : (CSharp.bareType kind name components).text = bareText kind name components := by
      cases components <;> simp [CSharp.bareType, CSharp.TypeText.text, CSharp.TypeText.kindText,
        CSharp.TypeText.endText,
        CSharp.TypeText.constraintsText, NameText.text, NameText.typeParametersText,
          NameText.componentsText,
        ClauseText.text, spaced, bareText, listText]
    have head := CSharp.head?_typeHeaders_text written trailing
    rw [text] at head
    refine ⟨_, head, rfl, rfl, rfl, ?_⟩
    cases components <;> rfl

/-! ### Components and parameters -/

/-- A record with a list and no members. -/
def recordText (name list : Text) : Text :=
  "record".toList ++ ' ' :: (name ++ '(' :: (list ++ ") \x7b\x7d".toList))

theorem recordText_eq (name list : Text) :
    recordText name list = bareText .recordType name (some list) ++ ['\x7d'] := by
  have word : TypeKind.recordType.keyword = "record".toList := rfl
  have ends : ") \x7b\x7d".toList = ')' :: [' ', '\x7b', '\x7d'] := by decide
  unfold recordText
  simp [bareText, listText, word, ends]

theorem classText_eq_bareText (name list : Text) :
    classText name list = bareText .classType name none ++ ' ' :: methodText list := by
  have word : TypeKind.classType.keyword = "class".toList := rfl
  have opens : " \x7b void m(".toList = [' ', '\x7b', ' '] ++ ("void m".toList ++ ['(']) := by
    decide
  have ends : ") \x7b\x7d \x7d".toList = ')' :: " \x7b\x7d \x7d".toList := by decide
  unfold classText
  simp [bareText, listText, methodText_eq, word, opens, ends]

theorem mask_recordText (hn : isIdentifier name = true)
    (hl : standingAfter language .code list = .code) :
    mask language (recordText name list) = recordText name (mask language list) := by
  have split :
      ∀ list, recordText name list = ("record".toList ++ ' ' :: (name ++ ['('])) ++
        (list ++ ") \x7b\x7d".toList) :=
    fun list => by
      unfold recordText
      simp
  have fixed : (∀ c ∈ "record".toList, Inert language c) ∧ Inert language ' ' ∧ Inert language '(' ∧
      ∀ c ∈ ") \x7b\x7d".toList, Inert language c := by cases language <;> decide
  have front : ∀ c ∈ "record".toList ++ ' ' :: (name ++ ['(']), Inert language c := by
    simp only [List.forall_mem_append, List.forall_mem_cons]
    exact ⟨fixed.1, fixed.2.1, fun c hc =>
      inert_of_isWord (isWord_of_isIdentifier hn c hc), fixed.2.2.1,
      fun _ hc => absurd hc List.not_mem_nil⟩
  rw [split, split, mask_around front hl fixed.2.2.2 (by decide)]

/-- The components of a type are what its pattern marks as such. -/
theorem components_of_typeHeader? {m : Match Slot} {header : TypeHeader}
    (h : language.typeHeader? m = some header) :
    header.components = m.text? .components := by
  cases language with
  | java =>
    obtain ⟨kind, -, h⟩ := Option.bind_eq_some_iff.mp h
    rw [← Option.some.inj h]
  | csharp =>
    rw [Language.typeHeader?, CSharp.typeHeader?] at h
    split at h
    · exact absurd h (by simp)
    · obtain ⟨word, -, h⟩ := Option.bind_eq_some_iff.mp h
      obtain ⟨kind, -, h⟩ := Option.bind_eq_some_iff.mp h
      rw [← Option.some.inj h]

/-- Before the list of components and behind it nothing is marked as such. -/
theorem exists_typeParts (language : Language) : ∃ front behind : List (Pattern Slot),
    language.typePattern = all (front ++ componentList :: behind) ∧
      Slot.components ∉ (all front).marks ∧
      Slot.components ∉ (all behind).marks := by
  cases language with
  | java =>
    exact ⟨[mark .modifiers (star (modifierRound Java.typeModifiers)), Java.kindPattern,
      someBlanks, named, typeParametersPart], Java.parentsPart, rfl, by decide, by decide⟩
  | csharp =>
    exact ⟨[mark .modifiers (star (modifierRound CSharp.typeModifiers)), wordEdge,
      CSharp.kindPattern, someBlanks, named,
      typeParametersPart], CSharp.basesPart, rfl, by decide, by decide⟩

/-- Components that are read have no closing parenthesis. -/
theorem notMem_components {header : TypeHeader} (hh : header ∈ language.typeHeaders t) {c : Text}
    (hc : header.components = some c) : ')' ∉ c := by
  rw [Language.typeHeaders_eq] at hh
  obtain ⟨m, hm, hh⟩ := List.mem_filterMap.mp hh
  rw [components_of_typeHeader? hh, Match.text?] at hc
  obtain ⟨span, hspan, rfl⟩ := Option.map_eq_some_iff.mp hc
  obtain ⟨-, there, hl⟩ := exists_leads_of_mem hm
  obtain ⟨front, behind, pattern, noneFront, noneBehind⟩ := exists_typeParts language
  rw [pattern] at hl
  obtain ⟨here, e, hfront, hl⟩ := leads_all_append hl
  obtain ⟨next, e', hlist, hl⟩ := leads_all_cons.mp hl
  have noneLater : e'.begins.lookup .components = none := (hl.lookup_of_notMem noneBehind).1
  have same : m.ending.begins.lookup .components = e.begins.lookup .components ∧
      m.ending.ends.lookup .components = e.ends.lookup .components :=
        hfront.lookup_of_notMem noneFront
  rw [Match.span?, same.1, same.2] at hspan
  cases hlist with
  | right hlist =>
    cases hlist
    rw [noneLater] at hspan
    exact absurd hspan (by simp)
  | left hlist =>
    obtain ⟨_, _, hgap, hlist⟩ := leads_all_cons.mp hlist
    obtain ⟨first, _, hopen, hlist⟩ := leads_all_cons.mp hlist
    obtain ⟨last, _, hinside, -⟩ := leads_all_cons.mp hlist
    obtain ⟨-, -, -, rfl⟩ := leads_blanks hgap
    obtain ⟨-, rfl⟩ := leads_sign hopen
    have marks := hinside.marks_mark (by decide)
    rw [marks.1, marks.2] at hspan
    obtain rfl : Span.mk first last = span := Option.some.inj hspan
    cases hinside with
    | mark hinside =>
      obtain ⟨w, hw, hrest, -⟩ := leads_star_one hinside
      rw [Span.text, Span.stop, Span.start, hinside.eq_beyond hrest, hrest]
      have text : takeBytes (first.offset + byteLength w - first.offset) (w ++ last.rest) = w := by
        rw [Nat.add_sub_cancel_left, takeBytes_append]
      exact fun hm => absurd (hw _ (text ▸ hm)) (by decide)

/-! ### The two lists -/

/-- The only method of the class is reported with the parameters that are read off its list. -/
theorem exists_method_classText (path : Text) (hn : isIdentifier name = true)
    (hs : language = .csharp → name ∉ CSharp.recordSorts)
    (hl : standingAfter language .code list = .code)
    (hf : isFlat (mask language list) = true) : ∃ m : Method,
      (summarize language path (classText name list)).types.flatMap (·.methods) = [m] ∧
        m.name = ['m'] ∧
        m.parameters = language.parseParameters (mask language list) := by
  let site := Site.ofText language (classText name list)
  have masked : site.masked = classText name (mask language list) := mask_classText hn hl
  obtain ⟨m, found, named, parameters, type⟩ := exists_methodMatches_classText language hn hf
  obtain ⟨header, first, start, -⟩ :=
    exists_head?_bareText language .classType none (by decide) hn hs
    (by simp) (' ' :: methodText (mask language list))
  rw [← classText_eq_bareText] at first
  have reported : site.methodMatches = [m] := by
    have noStatement : isStatementLike language.methodModifiers (.ofMatch m) = false := by
      rw [isStatementLike, named, type]
      cases language <;> decide
    rw [Site.methodMatches, masked, show site.language = language from rfl, found,
      List.filter_singleton, first, Option.any_some, start, noStatement]
    rfl
  refine ⟨site.methodOf (.ofMatch m), ?_, named, ?_⟩
  · show site.types.flatMap (·.methods) = _
    rw [site.methods_eq, reported]
    rfl
  · rw [← parameters]
    rfl

/-- Types are reported as their headers say. -/
theorem exists_type_iff {path : Text} {P : TypeKind → Text → List Parameter → Prop} :
    (∃ d ∈ (summarize language path t).types, P d.kind d.name d.recordComponents) ↔
      ∃ h ∈ language.typeHeaders (mask language t),
        P h.kind h.name ((h.components.map language.parseParameters).getD []) := by
  have declared :=
    (Site.ofText language t).map_types (fun d => (d.kind, d.name, d.recordComponents)) fun _ _ _ =>
      rfl
  have told := congrArg (fun l => ∃ p ∈ l, P p.1 p.2.1 p.2.2) declared
  simp only [List.mem_map, exists_exists_and_eq_and] at told
  exact iff_of_eq told

/-- A method is reported with the parameters of its list, and a record with the same list is
reported with the same components exactly if there is no closing parenthesis in the list, which then
has no parentheses at all. -/
theorem summarize_components_iff (language : Language) (path name list : Text)
    (hn : isIdentifier name = true) (hs : language = .csharp → name ∉ CSharp.recordSorts)
    (hl : standingAfter language .code list = .code)
    (hf : isFlat (mask language list) = true) : ∃ m : Method,
      (summarize language path (classText name list)).types.flatMap (·.methods) = [m] ∧
        m.name = ['m'] ∧
        m.parameters = language.parseParameters (mask language list) ∧
        ((∃ d ∈ (summarize language path (recordText name list)).types,
            d.kind = .recordType ∧ d.name = name ∧ d.recordComponents = m.parameters) ↔
              ')' ∉ mask language list) := by
  obtain ⟨m, found, named, parameters⟩ := exists_method_classText path hn hs hl hf
  refine ⟨m, found, named, parameters, ?_⟩
  refine (exists_type_iff (P := fun kind called list => kind = .recordType ∧ called = name ∧
    list = m.parameters)).trans ?_
  rw [mask_recordText hn hl, parameters]
  constructor
  · rintro ⟨header, hh, -, -, same⟩ closing
    obtain ⟨p, hp, hc⟩ : ∃ p ∈ language.parseParameters (mask language list), ')' ∈ p.raw :=
      (exists_mem_raw (by decide) (by decide) _).mpr closing
    rw [← same] at hp
    cases hcomponents : header.components with
    | none => simp [hcomponents] at hp
    | some c =>
      rw [hcomponents, Option.map_some, Option.getD_some] at hp
      exact notMem_components hh hcomponents
        ((exists_mem_raw (by decide) (by decide) c).mp ⟨p, hp, hc⟩)
  · intro noClosing
    obtain ⟨header, first, -, kind, named, components⟩ := exists_head?_bareText language .recordType
      (some (mask language list)) (by decide) hn hs
        (fun c hc => Option.mem_some_iff.mp hc ▸ noClosing) ['\x7d']
    rw [← recordText_eq] at first
    exact ⟨header, List.mem_of_head? first, kind, named, by rw [components]; rfl⟩

/-- Two components without annotations, of which one has a comma in its type. -/
def pairList : Text := "Map<K, V> left, int right".toList

theorem summarize_components_pairList :
    isIdentifier "Pair".toList = true ∧ standingAfter .java .code pairList = .code ∧
      isFlat (mask .java pairList) = true ∧
      ∃ m : Method, (summarize .java [] (classText "Pair".toList pairList)).types.flatMap
        (·.methods) = [m] ∧
        m.name = ['m'] ∧ m.parameters = Language.java.parseParameters (mask .java pairList) ∧
        ((∃ d ∈ (summarize .java [] (recordText "Pair".toList pairList)).types,
            d.kind = .recordType ∧ d.name = "Pair".toList ∧ d.recordComponents = m.parameters) ↔
          ')' ∉ mask .java pairList) :=
  have name : isIdentifier "Pair".toList = true := by decide
  have code : standingAfter .java .code pairList = .code := by decide +kernel
  have flat : isFlat (mask .java pairList) = true := by decide +kernel
  ⟨name, code, flat, summarize_components_iff .java [] "Pair".toList pairList name
    (by simp) code flat⟩

/-- A component with an annotation that has an argument. -/
def annotatedList : Text := "@Size(1) int x".toList

/-- A method is read with the list, a record with it is not reported at all. -/
theorem exists_lost_components :
    isFlat annotatedList = true ∧
      ((summarize .java [] (classText ['N'] annotatedList)).types.flatMap (·.methods)).map
        (fun m => m.parameters.map (·.raw)) = [[annotatedList]] ∧
      (summarize .java [] (recordText ['N'] annotatedList)).types = [] := by
  decide +kernel

end SourceSurvey.Source
