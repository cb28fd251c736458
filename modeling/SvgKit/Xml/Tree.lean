import SvgKit.Text.Basic

/-! XML trees with namespaces. A namespace declaration has an identity of its own, its mark:
two declarations may agree in everything else, and a name belongs to one of them.
-/

namespace SvgKit.Xml

/-- A namespace declaration: a label, unless it is the default one, and the name of the
namespace.
-/
structure Binding where
  mark : Nat
  label : Option Text
  uri : Text
  deriving Repr, DecidableEq

/-- The namespace of the label `xml`. -/
def xmlUri : Text := "http://www.w3.org/XML/1998/namespace"

/-- The declaration that every document has. -/
def Binding.xml : Binding := ⟨0, some "xml", xmlUri⟩

/-- A name, and the declaration of its namespace if it has one. -/
structure Name where
  binding : Option Binding
  base : Text
  deriving Repr, DecidableEq

/-- The namespace of a name. -/
def Name.uri? (n : Name) : Option Text := n.binding.map (·.uri)

/-- A name without a namespace. -/
def Name.plain (base : Text) : Name := ⟨none, base⟩

/-- An attribute. A value read with references to entities keeps its spelling. -/
structure Attribute where
  name : Name
  value : Text
  spelling : Option Text := none
  deriving Repr, DecidableEq

/-- What the start tag of an element says. -/
structure Head where
  name : Name
  bindings : List Binding := []
  attributes : List Attribute := []
  deriving Repr, DecidableEq

/-- A node of the content of an element. -/
inductive Node where
  | element (head : Head) (content : List Node)
  | text (s : Text)
  | entity (name : Text)

/-- An element. -/
structure Element where
  head : Head
  content : List Node

/-- The value of an attribute without a namespace. -/
def Head.get? (h : Head) (name : Text) : Option Text :=
  (h.attributes.find? fun a => a.name.binding.isNone && a.name.base = name).map (·.value)

/-- The attributes without the one of that name, which has no namespace. -/
def Head.erase (h : Head) (name : Text) : Head :=
  { h with
    attributes :=
      h.attributes.filter fun a => !(a.name.binding.isNone && a.name.base = name) }

/-- Gives an attribute that is there a new value; its name has no namespace. -/
def Head.set (h : Head) (name value : Text) : Head :=
  { h with
    attributes := h.attributes.map fun a =>
      if a.name.binding.isNone && a.name.base = name then ⟨a.name, value, none⟩ else a }

/-- The node is character data. -/
def Node.isText : Node → Bool
  | .text _ => true
  | _ => false

-----------------------------------------------------------------------------------------
-- The elements of a tree
-----------------------------------------------------------------------------------------

mutual

/-- The heads of a node and of all elements in it, in document order. -/
def Node.heads : Node → List Head
  | .element head content => head :: Node.allHeads content
  | .text _ => []
  | .entity _ => []

/-- The heads of the elements in nodes, in document order. -/
def Node.allHeads : List Node → List Head
  | [] => []
  | node :: nodes => node.heads ++ Node.allHeads nodes

end

/-- The heads of an element and of all elements in it, in document order. -/
def Element.heads (e : Element) : List Head := e.head :: Node.allHeads e.content

end SvgKit.Xml
