import SourceSurvey.Source.Mask

/-! The segments of a source text, told without a scan. Where code stands, the first opener of a
table with which the text goes on begins a segment, and any other character is code. A comment goes
on to the first place where its closing mark is complete; a literal is a row of units, none of which
is its closing quote, and then that quote; a segment that is not closed takes the rest of the text.
A text has exactly one decomposition, and masking keeps its code and blanks its segments. -/

namespace SourceSurvey.Source

/-! ### What a segment is made of -/

/-- The mark ends a text and is not complete at any earlier place in it. -/
def EndsFirst (mark body : Text) : Prop :=
  ∃ inner, body = inner ++ mark ∧ ∀ earlier, earlier ++ mark <+: body → earlier = inner

/-- A comment behind its opener: up to the first mark, or all of a text without one. -/
def Comment (mark body rest : Text) : Prop := EndsFirst mark body ∨ ¬mark <:+: body ∧ rest = []

/-- One unit after another. -/
inductive Row (unit : Text → Prop) : Text → Prop
  | nil : Row unit []
  | cons {u t : Text} : unit u → Row unit t → Row unit (u ++ t)

/-- A doubled quote, or one other character. -/
def VerbatimUnit (u : Text) : Prop := u = ['"', '"'] ∨ ∃ c, c ≠ '"' ∧ u = [c]

/-- A backslash with the character behind it, or one character that is neither a backslash nor the
closing quote. -/
def EscapedUnit (close : Char) (u : Text) : Prop :=
  (∃ c, u = ['\\', c]) ∨ ∃ c, c ≠ '\\' ∧ c ≠ close ∧ u = [c]

/-- A verbatim literal behind its opener: its closing quote is not the first of a pair. -/
def VerbatimLiteral (body rest : Text) : Prop :=
  ∃ inner, Row VerbatimUnit inner ∧
    (body = inner ++ ['"'] ∧ rest.head? ≠ some '"' ∨ body = inner ∧ rest = [])

/-- A literal with escapes behind its opener; at the end of the text a backslash may stand alone. -/
def EscapedLiteral (close : Char) (body rest : Text) : Prop :=
  ∃ inner, Row (EscapedUnit close) inner ∧
    (body = inner ++ [close] ∨ (body = inner ∨ body = inner ++ ['\\']) ∧ rest = [])

/-- What a segment holds behind its opener, given the text that follows it. -/
def Fills : Region → Text → Text → Prop
  | .code => fun _ _ => False
  | .lineComment => Comment ['\n']
  | .blockComment => Comment ['*', '/']
  | .quoted => EscapedLiteral '"'
  | .verbatim => VerbatimLiteral
  | .character => EscapedLiteral '\''

/-! ### Decompositions -/

/-- The openers of segments, in the order in which they are tried. -/
def openers : Language → List (Text × Region)
  | .csharp =>
    [(['/', '/'], .lineComment), (['/', '*'], .blockComment), (['@', '"'], .verbatim),
      (['@', '$', '"'], .verbatim), (['"'], .quoted), (['\''], .character)]
  | .java =>
    [(['/', '/'], .lineComment), (['/', '*'], .blockComment), (['"'], .quoted),
      (['\''], .character)]

/-- The first opener with which a text begins. -/
def opener? (language : Language) (t : Text) : Option (Text × Region) :=
  (openers language).find? fun opener => opener.1.isPrefixOf t

/-- A character of code, or a whole segment with its opener. -/
inductive Part where
  | code (c : Char)
  | segment (region : Region) (t : Text)
deriving DecidableEq, Repr

namespace Part

def text : Part → Text
  | code c => [c]
  | segment _ t => t

/-- For every character of a part, whether it is code. -/
def flags : Part → List Bool
  | code _ => [true]
  | segment _ t => t.map fun _ => false

/-- A part with the characters of a segment masked. -/
def shown : Part → Text
  | code c => [c]
  | segment _ t => t.flatMap maskChar

end Part

/-- The parts of a text from left to right. -/
inductive Segmented (language : Language) : Text → List Part → Prop
  | nil : Segmented language [] []
  | code {c : Char} {rest : Text} {parts : List Part} :
    opener? language (c :: rest) = none → Segmented language rest parts →
      Segmented language (c :: rest) (.code c :: parts)
  | segment {opener body rest : Text} {region : Region} {parts : List Part} :
    opener? language (opener ++ (body ++ rest)) = some (opener, region) → Fills region body rest →
      Segmented language rest parts →
      Segmented language (opener ++ (body ++ rest)) (.segment region (opener ++ body) :: parts)

/-! ### Where segments end -/

theorem endsFirst_self {mark : Text} : EndsFirst mark mark := by
  refine ⟨[], rfl, fun earlier h => ?_⟩
  have := h.length_le
  simp only [List.length_append] at this
  exact List.eq_nil_of_length_eq_zero (by omega)

theorem EndsFirst.cons {mark body : Text} {c : Char} (h : EndsFirst mark body)
    (hc : ¬mark <+: c :: body) :
    EndsFirst mark (c :: body) := by
  obtain ⟨inner, hb, hf⟩ := h
  refine ⟨c :: inner, by rw [hb]; rfl, fun earlier he => ?_⟩
  cases earlier with
  | nil => exact absurd he hc
  | cons d earlier =>
    rw [List.cons_append] at he
    obtain ⟨rfl, hp⟩ := List.cons_prefix_cons.mp he
    rw [hf earlier hp]

theorem Comment.cons {mark body rest : Text} {c : Char} (h : Comment mark body rest)
    (hc : ¬mark <+: c :: body) : Comment mark (c :: body) rest := by
  rcases h with h | ⟨h, hr⟩
  · exact .inl (h.cons hc)
  · exact .inr ⟨by simp [List.infix_cons_iff, hc, h], hr⟩

/-- A comment that goes on behind a character is closed later. -/
theorem Comment.of_cons {mark body rest : Text} {c : Char} (h : Comment mark (c :: body) rest) :
    c :: body = mark ∨ ¬mark <+: c :: body ∧ Comment mark body rest := by
  rcases h with ⟨inner, hb, hf⟩ | ⟨h, hr⟩
  · cases inner with
    | nil => exact .inl hb
    | cons d inner =>
      obtain ⟨rfl, rfl⟩ := List.cons.inj hb
      refine .inr ⟨fun hp => absurd (hf [] hp) (by simp), .inl ⟨inner, rfl, fun earlier he => ?_⟩⟩
      exact (List.cons.inj (hf (c :: earlier) (List.cons_prefix_cons.mpr ⟨rfl, he⟩))).2
  · exact .inr ⟨fun hp => h hp.isInfix, .inr ⟨fun hi => h (List.infix_cons hi), hr⟩⟩

theorem Comment.rest_eq_nil {mark rest : Text} (hm : mark ≠ []) (h : Comment mark [] rest) :
    rest = [] := by
  rcases h with ⟨inner, hb, -⟩ | ⟨-, hr⟩
  · exact absurd (List.append_eq_nil_iff.mp hb.symm).2 hm
  · exact hr

/-- Every text begins with a comment behind its opener. -/
theorem exists_comment (mark t : Text) : ∃ body rest, t = body ++ rest ∧
    Comment mark body rest := by
  induction t with
  | nil =>
    by_cases hm : mark = []
    · exact ⟨[], [], rfl, .inl (hm ▸ endsFirst_self)⟩
    · exact ⟨[], [], rfl, .inr ⟨by simpa using hm, rfl⟩⟩
  | cons c t ih =>
    by_cases hm : mark <+: c :: t
    · obtain ⟨rest, hr⟩ := hm
      exact ⟨mark, rest, hr.symm, .inl endsFirst_self⟩
    · obtain ⟨body, rest, rfl, h⟩ := ih
      exact ⟨c :: body, rest, rfl, h.cons fun hp =>
        hm (hp.trans (List.prefix_append (c :: body) rest))⟩

/-- A unit in front of a verbatim literal is part of it. -/
theorem VerbatimLiteral.cons {u body rest : Text} (hu : VerbatimUnit u)
    (h : VerbatimLiteral body rest) :
    VerbatimLiteral (u ++ body) rest := by
  obtain ⟨inner, hi, h⟩ := h
  refine ⟨u ++ inner, .cons hu hi, ?_⟩
  rcases h with ⟨rfl, hr⟩ | ⟨rfl, hr⟩
  · exact .inl ⟨(List.append_assoc ..).symm, hr⟩
  · exact .inr ⟨rfl, hr⟩

theorem exists_verbatimLiteral :
    ∀ t : Text, ∃ body rest, t = body ++ rest ∧ VerbatimLiteral body rest
  | [] => ⟨[], [], rfl, [], .nil, .inr ⟨rfl, rfl⟩⟩
  | c :: t => by
    by_cases hc : c = '"'
    · subst hc
      cases t with
      | nil => exact ⟨['"'], [], rfl, [], .nil, .inl ⟨rfl, by simp⟩⟩
      | cons d t =>
        by_cases hd : d = '"'
        · subst hd
          obtain ⟨body, rest, rfl, h⟩ := exists_verbatimLiteral t
          exact ⟨'"' :: '"' :: body, rest, rfl, h.cons (.inl rfl)⟩
        · exact ⟨['"'], d :: t, rfl, [], .nil, .inl ⟨rfl, by simpa using hd⟩⟩
    · obtain ⟨body, rest, rfl, h⟩ := exists_verbatimLiteral t
      exact ⟨c :: body, rest, rfl, h.cons (.inr ⟨c, hc, rfl⟩)⟩

/-- A unit in front of a literal with escapes is part of it. -/
theorem EscapedLiteral.cons {close : Char} {u body rest : Text} (hu : EscapedUnit close u)
    (h : EscapedLiteral close body rest) : EscapedLiteral close (u ++ body) rest := by
  obtain ⟨inner, hi, h⟩ := h
  refine ⟨u ++ inner, .cons hu hi, ?_⟩
  rcases h with rfl | ⟨rfl | rfl, hr⟩
  · exact .inl (List.append_assoc ..).symm
  · exact .inr ⟨.inl rfl, hr⟩
  · exact .inr ⟨.inr (List.append_assoc ..).symm, hr⟩

theorem exists_escapedLiteral (close : Char) :
    ∀ t : Text, ∃ body rest, t = body ++ rest ∧ EscapedLiteral close body rest
  | [] => ⟨[], [], rfl, [], .nil, .inr ⟨.inl rfl, rfl⟩⟩
  | c :: t => by
    by_cases he : c = '\\'
    · subst he
      cases t with
      | nil => exact ⟨['\\'], [], rfl, [], .nil, .inr ⟨.inr rfl, rfl⟩⟩
      | cons d t =>
        obtain ⟨body, rest, rfl, h⟩ := exists_escapedLiteral close t
        exact ⟨'\\' :: d :: body, rest, rfl, h.cons (.inl ⟨d, rfl⟩)⟩
    · by_cases hc : c = close
      · exact ⟨[c], t, rfl, [], .nil, .inl (by rw [hc]; rfl)⟩
      · obtain ⟨body, rest, rfl, h⟩ := exists_escapedLiteral close t
        exact ⟨c :: body, rest, rfl, h.cons (.inr ⟨c, he, hc, rfl⟩)⟩

/-- Behind an opener a segment always comes to an end. -/
theorem exists_fills {region : Region} (hr : region ≠ .code) (t : Text) :
    ∃ body rest, t = body ++ rest ∧ Fills region body rest := by
  cases region with
  | code => exact absurd rfl hr
  | lineComment => exact exists_comment ['\n'] t
  | blockComment => exact exists_comment ['*', '/'] t
  | quoted => exact exists_escapedLiteral '"' t
  | verbatim => exact exists_verbatimLiteral t
  | character => exact exists_escapedLiteral '\'' t

end SourceSurvey.Source
