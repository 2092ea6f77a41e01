import SourceSurvey.Source.Declaration

/-! The outline of one file as plain text: a line for the file, and a line for every type, leading
attribute of a type, constructor and method. -/

namespace SourceSurvey.Source

open Text

def atLine (line : Nat) : Text := "  (line ".toList ++ Nat.toDigits 10 line ++ [')']

/-- The modifiers, keyword and name of a type and the types that it extends or implements. -/
def TypeDeclaration.header (d : TypeDeclaration) : Text :=
  let bases := d.baseTypes ++ d.parents ++ d.interfaces
  d.modifiers.flatMap (· ++ [' ']) ++ d.kind.keyword ++ [' '] ++ d.name ++
    d.typeParameters.getD [] ++
    if bases = [] then [] else [' ', ':', ' '] ++ [',', ' '].intercalate bases

def TypeDeclaration.outlineLines (d : TypeDeclaration) : List Text :=
  [[' ', ' '] ++ d.header ++ atLine d.line] ++
    d.attributes.map (List.replicate 4 ' ' ++ ·) ++
    d.constructors.map (fun c => "    ctor   ".toList ++ c.prototype ++ atLine c.line) ++
    d.methods.map (fun m => "    method ".toList ++ m.prototype ++ atLine m.line)

def FileSummary.outlineLines (f : FileSummary) : List Text :=
  (f.path ++ " (".toList ++ f.language.name ++ ")  scope ".toList ++ f.scopeKey) ::
    match f.error with
    | some reason => ["  error: ".toList ++ reason]
    | none => f.types.flatMap TypeDeclaration.outlineLines

def FileSummary.outline (f : FileSummary) : Text := ofLines f.outlineLines

end SourceSurvey.Source
