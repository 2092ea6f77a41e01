import SourceSurvey.Proofs.CSharpType
import SourceSurvey.Proofs.JavaType
import SourceSurvey.Source.Grammar

/-! Type headers that are written as a language wants them. Each clause of such a header ends at the
next clause or at the body, whatever generic arguments it holds, so the first header that is found
is the written one with exactly its parts, whatever stands behind it. -/

namespace SourceSurvey.Source

open Text

/-- In both languages the first header found in a text that begins with a written one is that
header. -/
theorem head?_typeHeaders_written :
    (∀ (m : CSharp.TypeText) (trailing : Text), m.IsWritten →
      (Language.csharp.typeHeaders (m.text ++ trailing)).head? = some (m.header trailing)) ∧
    ∀ (m : Java.TypeText) (trailing : Text), m.IsWritten →
      (Language.java.typeHeaders (m.text ++ trailing)).head? = some (m.header trailing) :=
  ⟨fun _ trailing h => CSharp.head?_typeHeaders_text h trailing, fun _ trailing h =>
    Java.head?_typeHeaders_text h trailing⟩

def pairHeader : CSharp.TypeText where
  modifiers := [("public".toList, " ".toList), ("readonly".toList, "\n".toList)]
  kind := .recordType
  sort := some (" ".toList, "struct".toList)
  name := {
    beforeName := "  ".toList
    name := "Pair".toList
    typeParameters := some ([], "in K, List<V>".toList)
    components := some ([], "K Key, List<V> Value".toList) }
  bases := {
    before := " ".toList
    after := " ".toList
    supertypes := ["IPair<K, List<V>>".toList, "IDisposable".toList] }
  constraints := some {
    before := "\n  ".toList
    after := " ".toList
    constraints := "K : class where V : new()".toList }
  beforeEnd := []
  ending := ';'

theorem isWritten_pairHeader : pairHeader.IsWritten where
  modifiers := by decide
  kind := by decide
  sort := by decide
  name := by constructor <;> decide
  noSort := by decide
  bases := by constructor <;> decide
  constraints := fun _ hc => Option.mem_some_iff.mp hc ▸ ⟨by decide, by decide, by decide⟩
  beforeEnd := by decide
  ending := by decide
  body := by decide

def boxHeader : Java.TypeText where
  modifiers := [("non-sealed".toList, " ".toList), ("public".toList, " ".toList)]
  kind := .interfaceType
  name := {
    beforeName := " ".toList
    name := "Box".toList
    typeParameters := some ([], "T extends Comparable<? super T>".toList)
    components := none }
  parents := {
    before := " ".toList
    after := "\t".toList
    supertypes := ["Map<T, List<? extends T>>".toList, "Cloneable".toList] }
  interfaces := { before := " ".toList, after := " ".toList, supertypes := [] }
  permitted := { before := "\n".toList, after := " ".toList, supertypes := ["Crate".toList] }
  beforeEnd := " ".toList

theorem isWritten_boxHeader : boxHeader.IsWritten where
  modifiers := by decide
  kind := by decide
  name := by constructor <;> decide
  parents := by constructor <;> decide
  interfaces := by constructor <;> decide
  permitted := by constructor <;> decide
  gaps := by decide
  beforeEnd := by decide

theorem head?_typeHeaders_pairHeader_boxHeader :
    (pairHeader.text =
        ("public readonly\nrecord struct  Pair<in K, List<V>>(K Key, List<V> Value) : " ++
        "IPair<K, List<V>>, IDisposable\n  where K : class where V : new();").toList ∧
      pairHeader.IsWritten ∧
      (Language.csharp.typeHeaders (pairHeader.text ++ " class Next \x7b \x7d".toList)).head? =
        some {
        place := Cursor.ofText (pairHeader.text ++ " class Next \x7b \x7d".toList)
        kind := .recordType
        name := "Pair".toList
        modifiers := ["public".toList, "readonly".toList]
        typeParameters := some "<in K, List<V>>".toList
        baseTypes := ["IPair<K, List<V>>".toList, "IDisposable".toList]
        parents := []
        interfaces := []
        permitted := []
        components := some "K Key, List<V> Value".toList }) ∧
    (boxHeader.text =
        ("non-sealed public interface Box<T extends Comparable<? super T>> extends\t" ++
        "Map<T, List<? extends T>>, Cloneable\npermits Crate \x7b").toList ∧
      boxHeader.IsWritten ∧
      (Language.java.typeHeaders (boxHeader.text ++ " void open(); \x7d".toList)).head? = some {
        place := Cursor.ofText (boxHeader.text ++ " void open(); \x7d".toList)
        kind := .interfaceType
        name := "Box".toList
        modifiers := ["non-sealed".toList, "public".toList]
        typeParameters := some "<T extends Comparable<? super T>>".toList
        baseTypes := []
        parents := ["Map<T, List<? extends T>>".toList, "Cloneable".toList]
        interfaces := []
        permitted := ["Crate".toList]
        components := none }) :=
  ⟨⟨by decide +kernel, isWritten_pairHeader,
      (head?_typeHeaders_written.1 pairHeader _ isWritten_pairHeader).trans (by decide +kernel)⟩,
    by decide +kernel, isWritten_boxHeader,
    (head?_typeHeaders_written.2 boxHeader _ isWritten_boxHeader).trans (by decide +kernel)⟩

end SourceSurvey.Source
