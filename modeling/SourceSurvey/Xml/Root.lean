import SourceSurvey.Pattern.Search
import SourceSurvey.Xml.Reader

/-! The lenient reading of a descriptor: byte order marks in front are passed over, and a text that
cannot be read is read once more without its default namespace declarations. The fault of the
second reading is the one that is told. -/

namespace SourceSurvey.Xml

open Text Pattern

/-- A default namespace declaration in double quotes, with the blanks before it. -/
def defaultNamespace : Pattern Empty :=
  all [blanks, literal "xmlns".toList, blanks, sign '=', blanks, sign '"',
    star (noneOf ['"']), sign '"']

/-- The root element of a descriptor. -/
def root (t : Text) : Except Fault Node :=
  let t := t.dropWhile (· = '\uFEFF')
  match parse t with
  | .ok node => .ok node
  | .error _ => parse (defaultNamespace.replaceAll [] t)

end SourceSurvey.Xml
