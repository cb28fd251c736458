import SvgKit.Xml.Tree

/-! Namespace declarations in scope, and the adaptation of a subtree to a new place: names keep
their namespaces, declarations that repeat outer ones are given up, and missing ones are made.
-/

namespace SvgKit.Xml

/-- What new declarations are made from: the next mark, and the number of the next label. -/
structure Supply where
  mark : Nat := 1
  label : Nat := 0
  deriving Repr, DecidableEq

/-- A document: its root, and what new declarations in it are made from. -/
structure Document where
  root : Element
  supply : Supply

-----------------------------------------------------------------------------------------
-- Declarations in scope
-----------------------------------------------------------------------------------------

/-- The declarations found on the way from an element, the first of the path, to the root: those
of each element, and the one that the name of an outer element uses.
-/
def bindingsOnPath : List Head → List Binding
  | [] => []
  | h :: outer => h.bindings ++ outer.flatMap fun h => h.bindings ++ h.name.binding.toList

/-- The declaration that a label means in the element that the path leads from. -/
def labelOnPath? (path : List Head) (label : Option Text) : Option Binding :=
  if label = some ("xml" : Text) then some .xml
  else (bindingsOnPath path).find? (·.label = label)

/-- A declaration of a namespace by which names of the element may be written. Attributes need
one with a label.
-/
def usableBinding? (path : List Head) (isAttribute : Bool) (uri : Text) : Option Binding :=
  if uri = xmlUri then some .xml
  else
    (bindingsOnPath path).find? fun b =>
      b.uri = uri && (!isAttribute || b.label.isSome)
        && (labelOnPath? path b.label).any (·.mark = b.mark)

/-- A declaration of a namespace on a path or, behind its first element, used by a name on it,
whose label no element before it declares. The labels passed so far are given.
-/
def declaredBefore? (uri : Text) (passed : List Binding) : List Head → Option Binding
  | [] => none
  | h :: outer =>
    let visible (b : Binding) := b.uri = uri && !passed.any (·.label = b.label)
    match (h.bindings ++ h.name.binding.toList).find? visible with
    | some b => some b
    | none => declaredBefore? uri (passed ++ h.bindings) outer

/-- A declaration of a namespace in scope of the element that the path leads from. -/
def declared? (path : List Head) (uri : Text) : Option Binding :=
  match path with
  | [] => none
  | h :: outer =>
    match h.bindings.find? (·.uri = uri) with
    | some b => some b
    | none => declaredBefore? uri h.bindings outer

-----------------------------------------------------------------------------------------
-- New declarations
-----------------------------------------------------------------------------------------

/-- The labels that well-known namespaces get. -/
def knownLabels : List (Text × Text) :=
  [(xmlUri, "xml"),
    ("http://www.w3.org/1999/xhtml", "html"),
    ("http://www.w3.org/1999/XSL/Transform", "xsl"),
    ("http://www.w3.org/1999/02/22-rdf-syntax-ns#", "rdf"),
    ("http://schemas.xmlsoap.org/wsdl/", "wsdl"),
    ("http://www.w3.org/2001/XMLSchema", "xs"),
    ("http://www.w3.org/2001/XMLSchema-instance", "xsi"),
    ("http://purl.org/dc/elements/1.1/", "dc"),
    ("http://codespeak.net/lxml/objectify/pytype", "py")]

/-- A numbered label. -/
def numberedLabel (n : Nat) : Text := "ns" ++ Text.ofNat n

/-- The first of the numbered labels from a number on that is not taken, among at most `count`
of them, and the number behind it.
-/
def freeLabel (taken : Text → Bool) : Nat → Nat → Text × Nat
  | 0, n => (numberedLabel n, n + 1)
  | count + 1, n =>
    if taken (numberedLabel n) then freeLabel taken count (n + 1) else (numberedLabel n, n + 1)

/-- A label for a new declaration on the element that the path leads from: the wanted one or
the well-known one if it is free, or else a numbered one.
-/
def newLabel (path : List Head) (uri : Text) (wanted : Option Text) (n : Nat) : Text × Nat :=
  let taken (label : Text) := (labelOnPath? path (some label)).isSome
  let numbered := freeLabel taken (bindingsOnPath path).length n
  match wanted <|> knownLabels.lookup uri with
  | some label => if taken label then numbered else (label, n)
  | none => numbered

/-- A declaration by which names of the element may be written, and whether it is a new one. -/
def findOrDeclare (path : List Head) (isAttribute : Bool) (uri : Text) (wanted : Option Text)
    (supply : Supply) : Binding × Bool × Supply :=
  match usableBinding? path isAttribute uri with
  | some b => (b, false, supply)
  | none =>
    let (label, next) := newLabel path uri wanted supply.label
    (⟨supply.mark, some label, uri⟩, true, ⟨supply.mark + 1, next⟩)

-----------------------------------------------------------------------------------------
-- Adaptation
-----------------------------------------------------------------------------------------

/-- Where an adaptation stands: what has become of declarations, by their marks, and the
declarations on the topmost element.
-/
structure Adaptation where
  become : List (Nat × Binding)
  declared : List Binding
  supply : Supply

/-- What a declaration has become for a name. An attribute with a label keeps one. -/
def Adaptation.find? (a : Adaptation) (isAttribute : Bool) (old : Binding) : Option Binding :=
  (a.become.find? fun (mark, new) =>
    mark = old.mark && !(isAttribute && old.label.isSome && new.label.isNone)).map (·.2)

/-- Adapts a name; a missing declaration is made on the topmost element. -/
def adaptName (outer : List Head) (isAttribute : Bool) (n : Name)
    : StateM Adaptation Name := fun a =>
  match n.binding with
  | none => (n, a)
  | some old =>
    match a.find? isAttribute old with
    | some new => ({ n with binding := some new }, a)
    | none =>
      let top : Head := { name := .plain [], bindings := a.declared }
      let (new, isNew, supply) :=
        findOrDeclare (top :: outer) isAttribute old.uri old.label a.supply
      ({ n with binding := some new },
        { become := a.become ++ [(old.mark, new)]
          declared := if isNew then a.declared ++ [new] else a.declared
          supply })

/-- Gives up the declarations that repeat outer ones: those kept, and what each has become. -/
def stripBindings (outer : List Head) (bindings : List Binding)
    : List Binding × List (Nat × Binding) :=
  (bindings.filter fun b => (declared? outer b.uri).isNone,
    bindings.map fun b => (b.mark, (declared? outer b.uri).getD b))

/-- Adapts an attribute. -/
def adaptAttribute (outer : List Head) (a : Attribute) : StateM Adaptation Attribute := do
  let name ← adaptName outer true a.name
  pure { a with name }

mutual

/-- Adapts a node below the topmost element, whose name is given. The heads between it and the
node are on the inner path.
-/
def adaptNode (outer : List Head) (top : Name) (inner : List Head)
    : Node → StateM Adaptation Node
  | .element h content => do
    let a ← get
    let (kept, become) :=
      stripBindings (inner ++ { name := top, bindings := a.declared } :: outer) h.bindings
    set { a with become := a.become ++ become }
    let name ← adaptName outer false h.name
    let attributes ← h.attributes.mapM (adaptAttribute outer)
    let head : Head := { name, bindings := kept, attributes }
    let content ← adaptNodes outer top (head :: inner) content
    pure (.element head content)
  | node => pure node

/-- Adapts nodes below the topmost element, one after the other. -/
def adaptNodes (outer : List Head) (top : Name) (inner : List Head)
    : List Node → StateM Adaptation (List Node)
  | [] => pure []
  | node :: nodes => do
    let first ← adaptNode outer top inner node
    let rest ← adaptNodes outer top inner nodes
    pure (first :: rest)

end

/-- Adapts a node to a place below the elements of a path. -/
def Node.adapt (outer : List Head) : Node → StateM Supply Node
  | .element h content => fun supply =>
    let (declared, become) := stripBindings outer h.bindings
    let adapted : StateM Adaptation (Name × List Attribute × List Node) := do
      let name ← adaptName outer false h.name
      let attributes ← h.attributes.mapM (adaptAttribute outer)
      let content ← adaptNodes outer name [] content
      pure (name, attributes, content)
    let ((name, attributes, content), a) := adapted { become, declared, supply }
    (.element { name, bindings := a.declared, attributes } content, a.supply)
  | node => pure node

-----------------------------------------------------------------------------------------
-- Discarding
-----------------------------------------------------------------------------------------

mutual

/-- The topmost elements below a node that satisfy a condition on the parent and themselves. -/
def Node.topmost (p : Head → Head → Bool) (parent : Head) : Node → List Node
  | .element h content =>
    if p parent h then [.element h content] else Node.allTopmost p h content
  | _ => []

/-- The topmost elements in nodes that satisfy a condition on the parent and themselves. -/
def Node.allTopmost (p : Head → Head → Bool) (parent : Head) : List Node → List Node
  | [] => []
  | node :: nodes => node.topmost p parent ++ Node.allTopmost p parent nodes

end

/-- The supply once a node is discarded. It is adapted to a place without declarations, and so
are the elements taken out of it in turn, to a depth.
-/
def discardTo (p : Head → Head → Bool) : Nat → Node → Supply → Supply
  | 0, _, supply => supply
  | depth + 1, node, supply =>
    match node.adapt [] supply with
    | (.element h content, supply) =>
      (Node.allTopmost p h content).foldl (fun supply node => discardTo p depth node supply)
        supply
    | (_, supply) => supply

/-- The supply once a node is discarded, and elements are taken out of it that satisfy a
condition on the parent and themselves.
-/
def Node.discard (p : Head → Head → Bool) (node : Node) (supply : Supply) : Supply :=
  discardTo p node.heads.length node supply

-----------------------------------------------------------------------------------------
-- Unused declarations
-----------------------------------------------------------------------------------------

/-- The marks of the declarations that names use. -/
def Head.marks (h : Head) : List Nat :=
  (h.name.binding.toList ++ h.attributes.filterMap (·.name.binding)).map (·.mark)

mutual

/-- Changes every head in a node. -/
def Node.mapHeads (f : Head → Head) : Node → Node
  | .element h content => .element (f h) (Node.mapAllHeads f content)
  | node => node

/-- Changes every head in nodes. -/
def Node.mapAllHeads (f : Head → Head) : List Node → List Node
  | [] => []
  | node :: nodes => node.mapHeads f :: Node.mapAllHeads f nodes

end

/-- Changes every head in an element. -/
def Element.mapHeads (f : Head → Head) (e : Element) : Element :=
  ⟨f e.head, Node.mapAllHeads f e.content⟩

/-- Drops the declarations that no name uses. -/
def Element.dropUnused (e : Element) : Element :=
  let used := e.heads.flatMap Head.marks
  e.mapHeads fun h => { h with bindings := h.bindings.filter fun b => used.contains b.mark }

end SvgKit.Xml
