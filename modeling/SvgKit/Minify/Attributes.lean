import SvgKit.Minify.Path
import SvgKit.Minify.Style
import SvgKit.Xml.Scope

/-! The attributes of an element in their shortest form: defaults go, numbers are rounded, and
styles are compacted.
-/

namespace SvgKit.Minify

open Xml

-----------------------------------------------------------------------------------------
-- Defaults
-----------------------------------------------------------------------------------------

/-- The properties whose default is worth dropping, with the default. -/
def presentationDefaults : List (Text × Text) :=
  [("opacity", "1"), ("fill-opacity", "1"), ("stroke-opacity", "1"),
    ("stroke-dasharray", "none"), ("stroke-dashoffset", "0"), ("stroke-linecap", "butt"),
    ("stroke-linejoin", "miter"), ("stroke-miterlimit", "4"), ("fill-rule", "nonzero"),
    ("clip-rule", "nonzero")]

/-- The element sets a property, by an attribute or in its style. -/
def setsProperty (property : Text) (h : Head) : Bool :=
  (h.get? property).isSome
    || (declarations ((h.get? "style").getD [])).any (·.property = property)

/-- The attribute sets a property to its default, and no outer element sets the property. -/
def isRedundant (outer : List Head) (a : Attribute) : Bool :=
  a.name.binding.isNone
    && presentationDefaults.lookup a.name.base = some a.value
    && !outer.any (setsProperty a.name.base)

/-- The head without redundant attributes. -/
def dropDefaults (outer : List Head) (h : Head) : Head :=
  { h with attributes := h.attributes.filter fun a => !isRedundant outer a }

-----------------------------------------------------------------------------------------
-- Numbers
-----------------------------------------------------------------------------------------

/-- The attributes that hold coordinates and sizes. -/
def geometryNames : List Text :=
  ["x", "y", "x1", "y1", "x2", "y2", "dx", "dy", "width", "height", "r", "rx", "ry", "cx",
    "cy", "fx", "fy", "offset", "points", "viewBox"]

/-- The other attributes that hold numbers. -/
def measureNames : List Text :=
  ["opacity", "fill-opacity", "stroke-opacity", "stroke-width", "stroke-miterlimit",
    "stroke-dashoffset", "stroke-dasharray", "stdDeviation", "transform",
    "gradientTransform", "patternTransform"]

/-- The attribute holds numbers, path data apart. -/
def isNumeric (name : Text) : Bool :=
  geometryNames.contains name || measureNames.contains name

/-- The attribute holds path data. -/
def isPathData (name : Text) : Bool := name = ("d" : Text)

/-- An attribute with its numbers rounded, whatever its namespace. -/
def roundAttribute (precision : Int) (a : Attribute) : Except Failure Attribute :=
  if isPathData a.name.base then
    (compactPath precision a.value).map fun value => ⟨a.name, value, none⟩
  else if isNumeric a.name.base then
    (compactNumbers precision a.value).map fun value => ⟨a.name, value, none⟩
  else .ok a

/-- The head with all numbers rounded. -/
def roundNumbers (precision : Int) (h : Head) : Except Failure Head :=
  (h.attributes.mapM (roundAttribute precision)).map fun attributes => { h with attributes }

-----------------------------------------------------------------------------------------
-- Styles
-----------------------------------------------------------------------------------------

/-- The head with a compact style, or without one that declares nothing. -/
def compactStyle (h : Head) : Head :=
  match h.get? "style" with
  | none => h
  | some style =>
    match compactStyle? style with
    | some compact => h.set "style" compact
    | none => h.erase "style"

-----------------------------------------------------------------------------------------
-- Trees
-----------------------------------------------------------------------------------------

/-- A head in its shortest form below outer elements, which have theirs already. -/
def shortenHead (precision : Int) (outer : List Head) (h : Head) : Except Failure Head :=
  (roundNumbers precision (dropDefaults outer h)).map compactStyle

mutual

/-- A node with all heads in their shortest form. -/
def shortenNode (precision : Int) (outer : List Head) : Node → Except Failure Node
  | .element h content => do
    let head ← shortenHead precision outer h
    let content ← shortenNodes precision (head :: outer) content
    pure (.element head content)
  | node => pure node

/-- Nodes with all heads in their shortest form. -/
def shortenNodes (precision : Int) (outer : List Head) : List Node → Except Failure (List Node)
  | [] => pure []
  | node :: nodes => do
    let first ← shortenNode precision outer node
    let rest ← shortenNodes precision outer nodes
    pure (first :: rest)

end

/-- An element with all heads in their shortest form. -/
def shortenElement (precision : Int) (e : Element) : Except Failure Element := do
  let head ← shortenHead precision [] e.head
  let content ← shortenNodes precision [head] e.content
  pure ⟨head, content⟩

-----------------------------------------------------------------------------------------
-- Labels
-----------------------------------------------------------------------------------------

/-- Gives a rewritten attribute of a namespace the first label in scope for it. -/
def relabelAttribute (outer : List Head) (a : Attribute)
    : StateM (List Binding × Supply) Attribute := fun (bindings, supply) =>
  match a.name.binding with
  | none => (a, bindings, supply)
  | some old =>
    if isPathData a.name.base || isNumeric a.name.base then
      let top : Head := { name := .plain [], bindings }
      let (new, isNew, supply) := findOrDeclare (top :: outer) true old.uri none supply
      ({ a with name := { a.name with binding := some new } },
        if isNew then bindings ++ [new] else bindings, supply)
    else (a, bindings, supply)

/-- Gives the rewritten attributes of a head the first labels in scope. -/
def relabelHead (outer : List Head) (h : Head) : StateM Supply Head := fun supply =>
  let (attributes, bindings, supply) :=
    (h.attributes.mapM (relabelAttribute outer)) (h.bindings, supply)
  ({ h with bindings, attributes }, supply)

mutual

/-- Gives the rewritten attributes in a node the first labels in scope. -/
def relabelNode (outer : List Head) : Node → StateM Supply Node
  | .element h content => do
    let head ← relabelHead outer h
    let content ← relabelNodes (head :: outer) content
    pure (.element head content)
  | node => pure node

/-- Gives the rewritten attributes in nodes the first labels in scope. -/
def relabelNodes (outer : List Head) : List Node → StateM Supply (List Node)
  | [] => pure []
  | node :: nodes => do
    let first ← relabelNode outer node
    let rest ← relabelNodes outer nodes
    pure (first :: rest)

end

/-- The document with all attributes in their shortest form. -/
def shortenAttributes (precision : Int) (d : Document) : Except Failure Document :=
  (shortenElement precision d.root).map fun root =>
    let relabel : StateM Supply Element := do
      let head ← relabelHead [] root.head
      let content ← relabelNodes [head] root.content
      pure ⟨head, content⟩
    let (root, supply) := relabel d.supply
    ⟨root, supply⟩

end SvgKit.Minify
