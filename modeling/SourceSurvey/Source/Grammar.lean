import SourceSurvey.Source.CSharp
import SourceSurvey.Source.Java

/-! The declarations of a masked text by language. -/

namespace SourceSurvey.Language

open Source

/-- The namespace or package that a text declares. -/
def scope? : Language → Text → Option Text
  | .csharp => CSharp.scope?
  | .java => Java.scope?

/-- Type headers in text order. -/
def typeHeaders : Language → Text → List TypeHeader
  | .csharp => CSharp.typeHeaders
  | .java => Java.typeHeaders

/-- Headers in text order that have the form of a method. -/
def methodHeaders : Language → Text → List MemberHeader
  | .csharp => CSharp.methodHeaders
  | .java => Java.methodHeaders

/-- Headers in text order that have the form of a constructor. -/
def constructorHeaders : Language → Text → List MemberHeader
  | .csharp => CSharp.constructorHeaders
  | .java => Java.constructorHeaders

/-- The words that a method header takes for modifiers. -/
def methodModifiers : Language → List Text
  | .csharp => CSharp.methodModifiers
  | .java => Java.methodModifiers

/-- One entry of a parameter list, taken apart. -/
def parseParameter : Language → Text → Parameter
  | .csharp => CSharp.parseParameter
  | .java => Java.parseParameter

/-- A member header on one line. -/
def prototype : Language → MemberHeader → Text
  | .csharp => CSharp.prototype
  | .java => Java.prototype

/-- The parameters of a list. -/
def parseParameters (language : Language) (list : Text) : List Parameter :=
  (splitParameters list).map language.parseParameter

end SourceSurvey.Language
