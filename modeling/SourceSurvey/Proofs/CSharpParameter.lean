import SourceSurvey.Proofs.Member
import SourceSurvey.Proofs.Widened
import SourceSurvey.Proofs.WordEnds
import SourceSurvey.Source.CSharp

/-! Parameters of C# as they are written. A parameter is attribute groups, modifiers, a type, a name
and perhaps a default value, with blanks between. The groups are told by their square brackets
alone, and what stands behind them is cut at the first equals sign outside of all brackets, so signs
inside of groups, types and default values do not meddle: the parameter is read with the parts with
which it was written. -/

namespace SourceSurvey.Source.CSharp

open Text

variable {a b g t x y : Text} {c : Char} {depth : Nat}

/-! ### Groups -/

/-- A group in square brackets: the bracket that it begins with is closed by its last character and
not before. -/
structure IsGroup (g : Text) : Prop where
  opens : g.head? = some '['
  closed : g.foldl squareDepth 0 = 0
  first : ∀ n < g.length, 0 < n → 0 < (g.take n).foldl squareDepth 0

instance (g : Text) : Decidable (IsGroup g) :=
  decidable_of_iff (g.head? = some '[' ∧ g.foldl squareDepth 0 = 0 ∧ ∀ n < g.length, 0 < n →
    0 < (g.take n).foldl squareDepth 0)
    ⟨fun ⟨opens, closed, first⟩ => ⟨opens, closed, first⟩, fun h => ⟨h.opens, h.closed, h.first⟩⟩

/-- What is left of a group in which brackets are open is read to its end. -/
theorem takeGroupsFrom_append (closed : t.foldl squareDepth (depth + 1) = 0)
    (first : ∀ n < t.length, 0 < (t.take n).foldl squareDepth (depth + 1)) (group rest : Text) :
    takeGroupsFrom (depth + 1) group (t ++ rest) = ((group ++ t) :: (takeGroups rest).1,
      (takeGroups rest).2) := by
  induction t generalizing depth group with
  | nil => exact absurd closed (Nat.succ_ne_zero depth)
  | cons c t ih =>
    rw [List.foldl_cons] at closed
    by_cases hc : c = ']' ∧ depth = 0
    · obtain ⟨rfl, rfl⟩ := hc
      have last : t = [] := by
        by_contra hn
        have open' := first 1 (by simpa using List.length_pos_iff.mpr hn)
        exact absurd open' (by simp [squareDepth])
      subst last
      exact takeGroupsFrom_closed group rest
    · obtain ⟨deeper, hd⟩ := exists_squareDepth_eq_succ hc
      have later : ∀ n < t.length, 0 < (t.take n).foldl squareDepth (deeper + 1) := fun n hn => by
        simpa [hd] using first (n + 1) (by simpa using hn)
      rw [List.cons_append, takeGroupsFrom_open hc, hd, ih (hd ▸ closed) later, List.append_assoc,
        List.singleton_append]

theorem IsGroup.takeGroups_append (h : IsGroup g) (rest : Text) :
    takeGroups (g ++ rest) = (g :: (takeGroups rest).1, (takeGroups rest).2) := by
  obtain ⟨t, rfl⟩ := List.head?_eq_some_iff.mp h.opens
  have first : ∀ n < t.length, 0 < (t.take n).foldl squareDepth (0 + 1) := fun n hn =>
    h.first (n + 1) (by simpa using hn) (Nat.succ_pos n)
  exact takeGroupsFrom_append h.closed first ['['] rest

theorem takeGroups_blank_append (hb : Blank b) (t : Text) : takeGroups (b ++ t) = takeGroups t := by
  induction b with
  | nil => rfl
  | cons c b ih =>
    rw [← ih fun d hd => hb d (List.mem_cons_of_mem c hd), takeGroups, List.cons_append,
      takeGroupsFrom, if_pos (hb c List.mem_cons_self), takeGroups]

/-- Groups with blanks behind them are taken one after the other. -/
theorem takeGroups_spaced {groups : List (Text × Text)} (h : ∀ p ∈ groups, IsGroup p.1 ∧ Blank p.2)
    (rest : Text) :
    takeGroups (spaced groups ++ rest) = (groups.map (·.1) ++ (takeGroups rest).1,
      (takeGroups rest).2) := by
  induction groups with
  | nil => rfl
  | cons p groups ih =>
    obtain ⟨group, gap⟩ := p
    obtain ⟨⟨hg, hb⟩, hs⟩ := List.forall_mem_cons.mp h
    rw [spaced_cons, List.append_assoc, List.append_assoc, hg.takeGroups_append,
      takeGroups_blank_append hb, ih hs]
    rfl

/-- No group is taken off a text that begins, blanks aside, with another character. -/
theorem takeGroups_eq_trimStart (h : (trimStart t).head? ≠ some '[') :
    takeGroups t = ([], trimStart t) := by
  obtain ⟨b, split, front⟩ := exists_trimStart t
  conv_lhs => rw [split]
  rw [takeGroups_blank_append front]
  cases hs : trimStart t with
  | nil => rfl
  | cons c rest =>
    have solid := List.head?_dropWhile_not isBlank t
    have drop : t.dropWhile isBlank = c :: rest := hs
    rw [drop] at solid
    rw [hs] at h
    rw [takeGroups, takeGroupsFrom, if_neg (by simpa using solid), if_neg fun hc =>
      h (congrArg some hc)]

/-- The blanks in front of a text do not matter for its groups. -/
theorem takeGroups_trim (t : Text) : takeGroups (trim t) = takeGroups (trimEnd t) := by
  obtain ⟨b, split, front⟩ := exists_trimStart t
  by_cases hb : Blank t
  · rw [trim_eq_nil_iff.mpr hb, trimEnd_blank hb]
  · have some : ¬Blank (trimStart t) := fun h => hb (split.symm ▸ front.append h)
    rw [← takeGroups_blank_append front (trim t), trim, ← trimEnd_append some, ← split]

/-! ### Default values -/

/-- The signs by which a default value is looked for. -/
def defaultSigns : Text := ['<', '(', '[', '>', ')', ']', '=']

/-- A text that closes every bracket that it opens and has no equals sign outside of them. -/
structure NoDefault (t : Text) : Prop where
  closed : t.foldl bracketDepth 0 = 0
  inside : beforeDefault? 0 t = none

theorem bracketDepth_of_notMem (hc : c ∉ defaultSigns) (depth : Nat) :
    bracketDepth depth c = depth := by
  simp only [defaultSigns, List.mem_cons, List.not_mem_nil, or_false, not_or] at hc
  simp [bracketDepth, hc]

theorem beforeDefault?_append (depth : Nat) (x y : Text) : beforeDefault? depth (x ++ y) =
    (beforeDefault? depth x).or ((beforeDefault? (x.foldl bracketDepth depth) y).map (x ++ ·)) := by
  induction x generalizing depth with
  | nil => simp [beforeDefault?]
  | cons c x ih =>
    rw [List.cons_append, beforeDefault?, beforeDefault?, List.foldl_cons]
    split
    · rfl
    · rw [ih, Option.map_or, Option.map_map]
      rfl

/-- No default value begins in a text whose equals signs all stand in brackets. -/
theorem beforeDefault?_eq_none_iff : beforeDefault? depth t = none ↔
    ∀ i < t.length, t[i]? = some '=' → (t.take i).foldl bracketDepth depth ≠ 0 := by
  induction t generalizing depth with
  | nil => simp [beforeDefault?]
  | cons c t ih =>
    rw [beforeDefault?]
    constructor
    · intro h i hi hc
      split at h
      · exact absurd h (by simp)
      · next hn =>
        cases i with
        | zero => exact fun zero => hn ⟨by simpa using hc, zero⟩
        | succ i =>
            exact ih.mp (Option.map_eq_none_iff.mp h) i (by simpa using hi) (by simpa using hc)
    · intro h
      have here : ¬(c = '=' ∧ depth = 0) := fun hn => h 0 (Nat.succ_pos _) (congrArg some hn.1) hn.2
      rw [if_neg here, Option.map_eq_none_iff]
      exact ih.mpr fun i hi hc => h (i + 1) (Nat.succ_lt_succ hi) hc

namespace NoDefault

theorem of_notMem (h : ∀ c ∈ t, c ∉ defaultSigns) : NoDefault t := by
  have depth : ∀ n, t.foldl bracketDepth n = n := by
    induction t with
    | nil => exact fun _ => rfl
    | cons c t ih =>
      intro n
      rw [List.foldl_cons, bracketDepth_of_notMem (h c List.mem_cons_self), ih fun d hd =>
        h d (List.mem_cons_of_mem c hd)]
  refine ⟨depth 0, beforeDefault?_eq_none_iff.mpr fun i _ hc => ?_⟩
  exact absurd (List.mem_of_getElem? hc) fun hm => h '=' hm (by decide)

theorem of_blank (hb : Blank b) : NoDefault b := of_notMem fun c hc hm => by
  have blank := hb c hc
  revert blank
  exact (by decide : ∀ d ∈ defaultSigns, ¬isBlank d = true) c hm

theorem append (hx : NoDefault x) (hy : NoDefault y) : NoDefault (x ++ y) where
  closed := by rw [List.foldl_append, hx.closed, hy.closed]
  inside := by rw [beforeDefault?_append, hx.inside, hx.closed, hy.inside]; rfl

theorem spaced {run : List (Text × Text)} (h : ∀ p ∈ run, NoDefault p.1 ∧ Blank p.2) :
    NoDefault (spaced run) := by
  induction run with
  | nil => exact of_notMem fun c hc => absurd hc List.not_mem_nil
  | cons p run ih =>
    obtain ⟨⟨hw, hb⟩, hs⟩ := List.forall_mem_cons.mp h
    exact spaced_cons p.1 p.2 run ▸ hw.append ((of_blank hb).append (ih hs))

/-- An equals sign behind such a text begins a default value. -/
theorem stripDefault_append_cons (h : NoDefault x) (y : Text) :
    stripDefault (x ++ '=' :: y) = trimEnd x := by
  have start : beforeDefault? 0 (x ++ '=' :: y) = some x := by
    rw [beforeDefault?_append, h.inside, h.closed, beforeDefault?, if_pos ⟨rfl, rfl⟩,
      Option.none_or, Option.map_some, List.append_nil]
  rw [stripDefault, start]

/-- The words in front of a default value. -/
theorem words_stripDefault_append_cons (h : NoDefault x) (y : Text) :
    words (stripDefault (x ++ '=' :: y)) = words x := by
  rw [h.stripDefault_append_cons, words_trimEnd]

theorem words_stripDefault (h : NoDefault x) : words (stripDefault x) = words x := by
    rw [stripDefault, h.inside]

end NoDefault

/-- The blanks around a text do not matter for the words in front of its default value. -/
theorem words_stripDefault_blanks (ha : Blank a) (hb : Blank b) (t : Text) :
    words (stripDefault (a ++ (t ++ b))) = words (stripDefault t) := by
  have behind : ∀ depth, beforeDefault? depth b = none := fun depth =>
      beforeDefault?_eq_none_iff.mpr fun i _ hc =>
    absurd (hb '=' (List.mem_of_getElem? hc)) (by decide)
  have start : beforeDefault? 0 (a ++ (t ++ b)) = (beforeDefault? 0 t).map (a ++ ·) := by
    rw [beforeDefault?_append, (NoDefault.of_blank ha).inside, (NoDefault.of_blank ha).closed,
      beforeDefault?_append, behind, Option.map_none, Option.or_none, Option.none_or]
  rw [stripDefault, stripDefault, start]
  cases beforeDefault? 0 t with
  | none => rw [Option.map_none, words_blank_append ha, words_append_blank hb]
  | some front => rw [Option.map_some, words_trimEnd, words_trimEnd, words_blank_append ha]

/-! ### Parameters -/

/-- The parts of a parameter as they stand in a text, with the blanks around them. -/
structure ParameterText where
  front : Text
  /-- Each with the blanks behind it, if any. -/
  attributes : List (Text × Text)
  /-- Each with the blanks behind it. -/
  modifiers : List (Text × Text)
  typeText : Text
  beforeName : Text
  name : Text
  /-- The blanks in front of the equals sign, if any, and the text behind it. -/
  value : Option (Text × Text)
  back : Text

namespace ParameterText

/-- The type and the name behind the modifiers. -/
def declared (p : ParameterText) : Text :=
  spaced p.modifiers ++ (p.typeText ++ (p.beforeName ++ p.name))

def valueText (p : ParameterText) : Text :=
  match p.value with
  | none => []
  | some (gap, value) => gap ++ '=' :: value

def text (p : ParameterText) : Text :=
  p.front ++ (spaced p.attributes ++ (p.declared ++ (p.valueText ++ p.back)))

/-- The parts of a parameter are what they are called, and only blanks stand between them. -/
structure IsWritten (p : ParameterText) : Prop where
  front : Blank p.front
  attributes : ∀ a ∈ p.attributes, IsGroup a.1 ∧ Blank a.2
  modifiers : RunOf parameterModifiers p.modifiers
  /-- The type begins with no modifier and with no group. -/
  typeStart : ∃ w ws, words p.typeText = w :: ws ∧ w ∉ parameterModifiers ∧ w.head? ≠ some '['
  typeClosed : p.typeText.foldl bracketDepth 0 = 0
  typeInside : ∀ i < p.typeText.length, p.typeText[i]? = some '=' →
    (p.typeText.take i).foldl bracketDepth 0 ≠ 0
  beforeName : Blank p.beforeName ∧ p.beforeName ≠ []
  name : Solid p.name ∧ p.name ≠ []
  nameSigns : ∀ c ∈ p.name, c ∉ defaultSigns
  value : ∀ v ∈ p.value, Blank v.1
  back : Blank p.back

variable {p : ParameterText}

theorem keyWords_parameterModifiers : KeyWords parameterModifiers :=
  ⟨by decide, by decide, by decide⟩

namespace IsWritten

theorem words_declared_append (h : p.IsWritten) (t : Text) :
    words (p.declared ++ t) = p.modifiers.map
      (·.1) ++ (words p.typeText ++ words (p.name ++ t)) := by
  have split :
    p.declared ++ t = spaced p.modifiers ++ (p.typeText ++ (p.beforeName ++ (p.name ++ t))) := by
      simp [declared]
  rw [split, words_spaced_append (h.modifiers.isRun keyWords_parameterModifiers),
    words_append_gap h.beforeName.1 h.beforeName.2]

theorem words_declared (h : p.IsWritten) :
    words p.declared = p.modifiers.map (·.1) ++ (words p.typeText ++ [p.name]) := by
  have all := h.words_declared_append []
  rwa [List.append_nil, List.append_nil, words_solid h.name.1 h.name.2] at all

/-- What stands behind the attributes begins with a modifier or with the type. -/
theorem exists_first_word (h : p.IsWritten) (t : Text) :
    ∃ w ws, words (p.declared ++ t) = w :: ws ∧ w.head? ≠ some '[' := by
  obtain ⟨w, ws, first, -, noGroup⟩ := h.typeStart
  cases hm : p.modifiers with
  | nil => exact ⟨w, _, by rw [h.words_declared_append, hm, first]; rfl, noGroup⟩
  | cons m ms =>
    have modifier : m.1 ∈ parameterModifiers := (h.modifiers m (hm ▸ List.mem_cons_self)).1
    exact ⟨m.1, _, by rw [h.words_declared_append, hm]; rfl,
      (by decide : ∀ w ∈ parameterModifiers, w.head? ≠ some '[') _ modifier⟩

theorem noDefault (h : p.IsWritten) : NoDefault p.declared := by
  have plain : ∀ w ∈ parameterModifiers, ∀ c ∈ w, c ∉ defaultSigns := by decide
  have modifiers : NoDefault (spaced p.modifiers) := .spaced fun m hm =>
    ⟨.of_notMem (plain m.1 (h.modifiers m hm).1), (h.modifiers m hm).2.1⟩
  have typeText : NoDefault p.typeText :=
    ⟨h.typeClosed, beforeDefault?_eq_none_iff.mpr h.typeInside⟩
  have name : NoDefault (p.beforeName ++ p.name) :=
    (NoDefault.of_blank h.beforeName.1).append (.of_notMem h.nameSigns)
  exact modifiers.append (typeText.append name)

/-- The words in front of the default value are those of the modifiers, the type and the name. -/
theorem words_stripDefault (h : p.IsWritten) :
    words (stripDefault (p.declared ++ (p.valueText ++ p.back))) = words p.declared := by
  rw [valueText]
  cases hv : p.value with
  | none =>
    have tail :=
      words_stripDefault_blanks (a := []) (fun c hc => absurd hc List.not_mem_nil) h.back p.declared
    rw [List.nil_append] at tail
    rw [List.nil_append, tail, h.noDefault.words_stripDefault]
  | some v =>
    have gap := h.value v hv
    have split :
      p.declared ++ (v.1 ++ '=' :: v.2 ++ p.back) = (p.declared ++ v.1) ++
        '=' :: (v.2 ++ p.back) := by simp
    rw [split, (h.noDefault.append (.of_blank gap)).words_stripDefault_append_cons,
      words_append_blank gap]

/-- The groups in front of a parameter are its attributes, and the rest has the words of what stands
behind them. -/
theorem exists_takeGroups (h : p.IsWritten) : ∃ rest,
    takeGroups (trim p.text) = (p.attributes.map (·.1), rest) ∧
      words (stripDefault rest) = words p.declared := by
  let body := p.declared ++ (p.valueText ++ p.back)
  obtain ⟨w, ws, first, noGroup⟩ := h.exists_first_word (p.valueText ++ p.back)
  have some : ¬Blank body := fun hb => by simp [body, words_eq_nil_iff.mpr hb] at first
  have some' : ¬Blank (spaced p.attributes ++ body) := fun hb => some hb.right
  have start : (trimStart (trimEnd body)).head? ≠ Option.some '[' := by
    rwa [head?_trimStart ((words_trimEnd body).trans first)]
  refine ⟨trimStart (trimEnd body), ?_, ?_⟩
  · rw [takeGroups_trim, text, trimEnd_append some', trimEnd_append some,
      takeGroups_blank_append h.front,
      takeGroups_spaced h.attributes, takeGroups_eq_trimStart start, List.append_nil]
  · obtain ⟨gap, split, blank, -⟩ := exists_trimEnd body
    obtain ⟨lead, trimmed, front⟩ := exists_trimStart (trimEnd body)
    have whole : lead ++ (trimStart (trimEnd body) ++ gap) = body := by
      rw [← List.append_assoc, ← trimmed, ← split]
    rw [← words_stripDefault_blanks front blank, whole, h.words_stripDefault]

end IsWritten

end ParameterText

/-- A parameter is read with the attributes, modifiers, type and name with which it was written,
whatever its default value is. -/
theorem parseParameter_text {p : ParameterText} (h : p.IsWritten) : parseParameter p.text = {
    raw := trim p.text
    typeName := some (collapse p.typeText)
    name := some p.name
    variadic := decide ("params".toList ∈ p.modifiers.map (·.1))
    modifiers := p.modifiers.map (·.1)
    attributes := p.attributes.map (·.1) } := by
  obtain ⟨rest, groups, tokens⟩ := h.exists_takeGroups
  obtain ⟨w, ws, first, noModifier, -⟩ := h.typeStart
  have modifiers : ∀ m ∈ p.modifiers.map (·.1), parameterModifiers.contains m = true :=
    List.forall_mem_map.mpr fun m hm => List.contains_iff_mem.mpr (h.modifiers m hm).1
  have stop : ¬parameterModifiers.contains w = true :=
    fun hw => noModifier (List.contains_iff_mem.mp hw)
  have taken : (words p.declared).takeWhile parameterModifiers.contains =
      p.modifiers.map (·.1) := by
    rw [h.words_declared, first, List.takeWhile_append_of_pos modifiers, List.cons_append,
      List.takeWhile_cons_of_neg stop, List.append_nil]
  have dropped : (words p.declared).dropWhile parameterModifiers.contains =
      (w :: ws) ++ [p.name] := by
    rw [h.words_declared, first, List.dropWhile_append_of_pos modifiers, List.cons_append,
      List.dropWhile_cons_of_neg stop]
  rw [parseParameter, groups]
  dsimp only
  rw [tokens, taken, dropped, List.dropLast_concat, List.getLast?_concat, List.contains_eq_mem,
    collapse, first]

/-- The signs of a default value in an attribute, in brackets of the type and in the value itself.
-/
def tableParameter : ParameterText where
  front := " ".toList
  attributes := [("[Range(1, 2)]".toList, []), ("[Keys = new[] \x7b 1 \x7d]".toList, "\n".toList)]
  modifiers := [("scoped".toList, " ".toList), ("params".toList, "  ".toList)]
  typeText := "Dictionary<string,  (int a = b)>[]".toList
  beforeName := " ".toList
  name := "table".toList
  value := some (" ".toList, " a[0] == '[' ? null : (int x) => params[".toList)
  back := " ".toList

theorem isWritten_tableParameter : tableParameter.IsWritten where
  front := by decide
  attributes := by decide
  modifiers := by decide
  typeStart :=
    ⟨"Dictionary<string,".toList,
      ["(int".toList, "a".toList, "=".toList, "b)>[]".toList], by decide⟩
  typeClosed := by decide
  typeInside := by decide
  beforeName := by decide
  name := by decide
  nameSigns := by decide
  value := by decide
  back := by decide

theorem parseParameter_tableParameter :
    tableParameter.text =
        " [Range(1, 2)][Keys = new[] \x7b 1 \x7d]\nscoped params  Dictionary<string,  (int a = b)>[]".toList ++
        " table = a[0] == '[' ? null : (int x) => params[ ".toList ∧
      tableParameter.IsWritten ∧
      parseParameter tableParameter.text = {
        raw := trim tableParameter.text
        typeName := some "Dictionary<string, (int a = b)>[]".toList
        name := some "table".toList
        variadic := true
        modifiers := ["scoped".toList, "params".toList]
        attributes := ["[Range(1, 2)]".toList, "[Keys = new[] \x7b 1 \x7d]".toList] } :=
  ⟨by decide +kernel, isWritten_tableParameter, (parseParameter_text isWritten_tableParameter).trans
    (by decide +kernel)⟩

end SourceSurvey.Source.CSharp
