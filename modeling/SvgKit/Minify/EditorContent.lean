import SvgKit.Xml.Scope

/-! Content that only drawing programs need: metadata, and everything in their namespaces. -/

namespace SvgKit.Minify

open Xml

/-- The namespaces of drawing programs. -/
def editorNamespaces : List Text :=
  ["http://www.inkscape.org/namespaces/inkscape",
    "http://sodipodi.sourceforge.net/DTD/sodipodi-0.dtd",
    "http://ns.adobe.com/AdobeIllustrator/10.0/",
    "http://ns.adobe.com/SaveForWeb/1.0/",
    "http://ns.adobe.com/Extensibility/1.0/",
    "http://www.bohemiancoding.com/sketch/ns"]

/-- The name belongs to a drawing program. -/
def isEditorName (n : Name) : Bool := n.uri?.any editorNamespaces.contains

/-- The element is there for drawing programs. -/
def isEditorElement (h : Head) : Bool :=
  h.name.base = ("metadata" : Text) || isEditorName h.name

mutual

/-- A node without the elements in it that satisfy a condition on the parent and themselves. -/
def pruneNode (p : Head → Head → Bool) : Node → Node
  | .element h content => .element h (pruneNodes p h false content)
  | node => node

/-- Nodes without the elements that satisfy a condition on the parent and themselves. With an
element goes the text directly behind it; whether one has just gone is given.
-/
def pruneNodes (p : Head → Head → Bool) (parent : Head) (gone : Bool) : List Node → List Node
  | [] => []
  | .element h content :: nodes =>
    if p parent h then pruneNodes p parent true nodes
    else pruneNode p (.element h content) :: pruneNodes p parent false nodes
  | .text s :: nodes =>
    if gone then pruneNodes p parent true nodes
    else .text s :: pruneNodes p parent false nodes
  | .entity name :: nodes => .entity name :: pruneNodes p parent false nodes

end

/-- The head without the attributes for drawing programs. -/
def dropEditorAttributes (h : Head) : Head :=
  { h with attributes := h.attributes.filter fun a => !isEditorName a.name }

/-- The document without content for drawing programs; the root stays. -/
def removeEditorContent (d : Document) : Document :=
  let p (_ h : Head) := isEditorElement h
  let removed := Node.allTopmost p d.root.head d.root.content
  let root : Element := ⟨d.root.head, pruneNodes p d.root.head false d.root.content⟩
  ⟨root.mapHeads dropEditorAttributes,
    removed.foldl (fun supply node => node.discard p supply) d.supply⟩

end SvgKit.Minify
