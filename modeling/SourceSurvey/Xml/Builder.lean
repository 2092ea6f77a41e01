import SourceSurvey.Xml.Document
import SourceSurvey.Xml.Input

/-! The tree under construction: the elements that are open, the start tag that is being read with
its attributes and namespaces, and the declared entities. A start tag is checked as a whole when
it ends: first its attributes, whose names must differ once their namespaces are known, then the
namespace of the element itself. Text that touches text makes one node. -/

namespace SourceSurvey.Xml

open Text

def xmlUri : Text := "http://www.w3.org/XML/1998/namespace".toList

def xmlnsUri : Text := "http://www.w3.org/2000/xmlns/".toList

/-- A namespace under its short name; the default one has none. -/
abbrev Namespace := Option Text × Text

/-- An attribute whose namespace is not resolved yet. -/
structure PendingAttribute where
  name : QualifiedName
  value : Text
  position : Position

/-- An element whose end tag has not come. -/
structure OpenElement where
  name : QualifiedName
  attributes : List Attribute
  namespaces : List Namespace
  /-- Latest first. -/
  children : List Node

/-- A start tag that has been begun. -/
structure Tag where
  name : QualifiedName
  position : Position

/-- How a tag ends. -/
inductive TagEnd where
  | empty
  | opened
  | close (name : QualifiedName)

structure Builder where
  entities : List (Text × Input)
  /-- Innermost first. -/
  opened : List OpenElement
  /-- Finished nodes outside every element, latest first. -/
  roots : List Node
  tag : Option Tag
  attributes : List PendingAttribute
  namespaces : List Namespace
  afterText : Bool
  /-- References expanded inside the entity that is being expanded. -/
  references : Nat

namespace Builder

def empty : Builder := ⟨[], [], [], none, [], [], false, 0⟩

/-- Changes the children of the innermost open element, or the nodes outside all elements. -/
def editChildren (b : Builder) (f : List Node → List Node) : Builder :=
  match b.opened with
  | [] => { b with roots := f b.roots }
  | e :: outer => { b with opened := { e with children := f e.children } :: outer }

def append (b : Builder) (node : Node) : Builder := b.editChildren (node :: ·)

/-- A node that is no text. -/
def appendOther (b : Builder) (node : Node) : Builder := { b.append node with afterText := false }

def appendText (b : Builder) (t : Text) : Builder :=
  let join : List Node → List Node
    | .text before :: nodes => if b.afterText then .text (before ++ t) :: nodes else
        .text t :: .text before :: nodes
    | nodes => .text t :: nodes
  { b.editChildren join with afterText := true }

/-- An entity keeps its first declaration. -/
def declareEntity (b : Builder) (name : Text) (value : Input) : Builder :=
  { b with entities := b.entities ++ [(name, value)] }

def startTag (b : Builder) (name : QualifiedName) (position : Position) : Except Fault Builder :=
  if name.space = "xmlns".toList then .error (.reservedElement (position.past '<'))
  else .ok { b with tag := some ⟨name, position⟩, afterText := false }

/-- An attribute of the tag that is being read; some declare a namespace. -/
def addAttribute (b : Builder) (name : QualifiedName) (value : Text) (position : Position) :
    Except Fault Builder :=
  if name.space = "xmlns".toList then
    if value = xmlnsUri then .error (.reservedNamespace position)
    else if name.name = "xml".toList ∧ value ≠ xmlUri then .error (.xmlNamedOtherwise position)
    else if name.name ≠ "xml".toList ∧ value = xmlUri then .error (.xmlNamespaceElsewhere position)
    else if b.namespaces.any (·.1 = some name.name)
      then .error (.repeatedNamespace name.name position)
    else if value = xmlUri then .ok b
    else .ok { b with namespaces := b.namespaces ++ [(some name.name, value)] }
  else if name.name = "xmlns".toList then
    if value = xmlUri then .error (.xmlNamespaceElsewhere position)
    else if value = xmlnsUri then .error (.reservedNamespace position)
    else .ok { b with namespaces := b.namespaces ++ [(none, value)] }
  else .ok { b with attributes := b.attributes ++ [⟨name, value, position⟩] }

/-- The namespaces of the tag, its own before those it inherits. -/
def namespacesInScope (b : Builder) : List Namespace :=
  match b.opened with
  | [] => b.namespaces
  | e :: _ => b.namespaces ++ e.namespaces.filter fun n => !b.namespaces.any (·.1 = n.1)

/-- The namespace of a short name; only the empty one may be unknown. -/
def resolve (scope : List Namespace) (space : Text) (position : Position) :
    Except Fault (Option Text) :=
  match scope.find? fun n => n.1 = if space = [] then none else some space with
  | some n => .ok (some n.2)
  | none => if space = [] then .ok none else .error (.unknownNamespace space position)

def attributeSpace (scope : List Namespace) (a : PendingAttribute) : Except Fault (Option Text) :=
  if a.name.space = "xml".toList then .ok (some xmlUri)
  else if a.name.space = [] then .ok none
  else resolve scope a.name.space a.position

/-- The attributes with their namespaces, after those that are resolved already. -/
def resolveAttributes (scope : List Namespace) :
    List Attribute → List PendingAttribute → Except Fault (List Attribute)
  | done, [] => .ok done
  | done, a :: rest => do
    let space ← attributeSpace scope a
    if done.any fun d => d.space = space ∧ d.name = a.name.name then
      throw (.repeatedAttribute a.name.name a.position)
    resolveAttributes scope (done ++ [⟨space, a.name.name, a.value⟩]) rest

def OpenElement.node (e : OpenElement) : Node :=
  .element e.name.name e.attributes e.children.reverse

/-- Closes the innermost element under the name of an end tag. -/
def closeElement (b : Builder) (name : QualifiedName) (position : Position) :
    Except Fault Builder :=
  match b.opened with
  | [] => .error (.strayClose position)
  | e :: outer =>
    if e.name = name then .ok ({ b with opened := outer }.append (OpenElement.node e))
    else .error (.mismatchedTag e.name.text name.text position)

/-- What a tag does when it ends. -/
def endTag (b : Builder) (ending : TagEnd) (position : Position) : Except Fault Builder :=
  match b.tag with
  | none => .error (.strayClose position)
  | some tag => do
    let scope := b.namespacesInScope
    let attributes ← resolveAttributes scope [] b.attributes
    let b := { b with attributes := [], namespaces := [], afterText := false }
    match ending with
    | .close name => b.closeElement name position
    | .empty =>
      let _ ← resolve scope tag.name.space (tag.position.past '<')
      return b.append (.element tag.name.name attributes [])
    | .opened =>
      let _ ← resolve scope tag.name.space (tag.position.past '<')
      return { b with opened := ⟨tag.name, attributes, scope, []⟩ :: b.opened }

/-- The root element of a finished document. -/
def root (b : Builder) : Except Fault Node :=
  match b.opened, b.roots.reverse.find? Node.isElement with
  | _ :: _, _ => .error .unclosedRoot
  | [], some node => .ok node
  | [], none => .error .noRoot

end Builder

end SourceSurvey.Xml
