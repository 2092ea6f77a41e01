import SourceSurvey.Text.Basic

/-! The tree of an XML document. Elements are looked up by local name and attributes only where
they stand in no namespace. The text of an element is its first child if that is text, so a
comment, an instruction or an element in front hides it. -/

namespace SourceSurvey.Xml

open Text

structure Attribute where
  /-- The namespace of a name with a colon. -/
  space : Option Text
  name : Text
  value : Text
deriving DecidableEq, Repr

inductive Node where
  | element (name : Text) (attributes : List Attribute) (children : List Node)
  | text (t : Text)
  | comment
  | instruction

namespace Node

def isElement : Node → Bool
  | element .. => true
  | _ => false

/-- The local name of an element. -/
def name? : Node → Option Text
  | element name .. => some name
  | _ => none

def children : Node → List Node
  | element _ _ nodes => nodes
  | _ => []

def attributes : Node → List Attribute
  | element _ attributes _ => attributes
  | _ => []

/-- Element children with a local name. -/
def childrenNamed (node : Node) (name : String) : List Node :=
  node.children.filter fun child => child.name? = some name.toList

def child? (node : Node) (name : String) : Option Node := (node.childrenNamed name).head?

/-- A trimmed text, unless nothing is left of it. -/
def nonBlank? (t : Text) : Option Text := if trim t = [] then none else some (trim t)

/-- The trimmed text at the front of an element. -/
def text? (node : Node) : Option Text :=
  match node.children with
  | text t :: _ => nonBlank? t
  | _ => none

/-- The trimmed text of the first child with a name. -/
def childText? (node : Node) (name : String) : Option Text := (node.child? name).bind text?

/-- The trimmed value of an attribute, unless it is blank. -/
def attribute? (node : Node) (name : String) : Option Text :=
  (node.attributes.find? fun a => a.space = none ∧ a.name = name.toList).bind fun a =>
    nonBlank? a.value

end Node

end SourceSurvey.Xml
