import SourceSurvey.Proofs.LeadHeader

/-! A byte order mark in front of a source text. The mark is neither a blank nor part of a word, so
the line that it stands on does not begin where it did: an attribute on that line is no longer one,
nor is a scope declared there. Everything else is told as without the mark. -/

namespace SourceSurvey.Source

open Text Pattern

/-- The character that may stand in front of a text to tell its encoding. -/
def byteOrderMark : Char := '\uFEFF'

theorem isLead_byteOrderMark : IsLead byteOrderMark :=
  ⟨by decide +kernel, by decide +kernel, by decide⟩

/-- The view that leaves out the attributes above a declaration. -/
def View.unattributed : View := { View.whole with attributes := fun _ => [] }

theorem mask_byteOrderMark (language : Language) (t : Text) :
    mask language (byteOrderMark :: t) = byteOrderMark :: mask language t := by
  have opens : opening? language byteOrderMark t = none := by
    cases language <;> simp [opening?, byteOrderMark, Language.verbatimMark]
  have keep : keeps language .code byteOrderMark t = true := by
    rw [keeps_code, opens]
    rfl
  rw [mask, maskFrom, if_pos keep, step_code, opens]
  rfl

/-- A text with a byte order mark has the summary of the text, but that the attributes on its first
line, if there are any, belong to no declaration and that it has not the scope that its first line
declares. -/
theorem summarize_byteOrderMark (language : Language) (path t : Text) :
    let marked := summarize language path (byteOrderMark :: t)
    let plain := summarize language path t
    let line := firstLine (mask language t)
    marked.types.map View.unattributed.ofType = plain.types.map View.unattributed.ofType ∧
      (line.head? ≠ some language.attributeMark → marked = { plain with scope := marked.scope }) ∧
      (¬language.scopeWord <+: line → marked = { plain with types := marked.types }) := by
  intro marked plain line
  have types : plain.types = (Site.ofMasked language (mask language t)).types := rfl
  have typesMarked :
      marked.types = (Site.ofMasked language (byteOrderMark :: mask language t)).types := by
    rw [← mask_byteOrderMark]
    rfl
  have lines : ∀ offset, (LineTable.ofText (mask language t)).lineOf offset =
      (LineTable.ofText (byteOrderMark :: mask language t)).lineOf
        (byteOrderMark.utf8Size + offset) := fun offset =>
    (lineOf_lead (by decide) _ _).symm
  refine ⟨?_, fun hf => ?_, fun hf => ?_⟩
  · rw [types, typesMarked]
    exact (types_lead isLead_byteOrderMark language _ rfl lines fun _ _ => rfl).symm
  · have mark : byteOrderMark ≠ language.attributeMark := by cases language <;> decide
    have same : (Site.ofMasked language (mask language t)).types.map View.whole.ofType =
        (Site.ofMasked language (byteOrderMark :: mask language t)).types.map View.whole.ofType :=
      types_lead isLead_byteOrderMark language (mask language t) rfl lines
        fun here hh => (attributesAbove_lead (by decide) mark hh hf).symm
    rw [View.map_ofType_whole, View.map_ofType_whole, ← types, ← typesMarked] at same
    show (⟨path, language, marked.scope, marked.types, none⟩ : FileSummary) =
      ⟨path, language, marked.scope, plain.types, none⟩
    rw [same]
  · have same : marked.scope = plain.scope := by
      show language.scope? (mask language (byteOrderMark :: t)) = language.scope? (mask language t)
      rw [mask_byteOrderMark]
      exact scope?_lead (by decide) isLead_byteOrderMark.word hf
    show (⟨path, language, marked.scope, marked.types, none⟩ : FileSummary) =
      ⟨path, language, plain.scope, marked.types, none⟩
    rw [same]

/-- Behind a first line that is neither an attribute nor the declaration of a scope, nothing is
lost. -/
theorem summarize_byteOrderMark_using :
    let t := "using System;\n[Serializable]\nclass A \x7b \x7d\n".toList
    let line := firstLine (mask .csharp t)
    line.head? ≠ some '[' ∧ ¬Language.scopeWord .csharp <+: line ∧
      summarize .csharp [] (byteOrderMark :: t) = summarize .csharp [] t := by
  intro t line
  have noAttribute : line.head? ≠ some '[' := by decide +kernel
  have noScope : ¬Language.scopeWord .csharp <+: line := by decide +kernel
  obtain ⟨-, types, scope⟩ := summarize_byteOrderMark .csharp [] t
  have sameTypes := congrArg FileSummary.types (types noAttribute)
  refine ⟨noAttribute, noScope, (scope noScope).trans ?_⟩
  rw [sameTypes]

/-- A scope that the first line declares is lost. -/
theorem summarize_byteOrderMark_namespace :
    let t := "namespace N;\nclass A \x7b \x7d\n".toList
    t.head? ≠ some byteOrderMark ∧ (summarize .csharp [] t).scope = some ['N'] ∧
      (summarize .csharp [] (byteOrderMark :: t)).scope = none := by
  decide +kernel

end SourceSurvey.Source
