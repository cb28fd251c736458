import SvgKit.Xml.Scope

/-! Containers that draw nothing are removed, and groups that say nothing are replaced by their
content.
-/

namespace SvgKit.Minify

open Xml

/-- Elements that draw nothing by themselves. -/
def containerNames : List Text :=
  ["g", "defs", "symbol", "mask", "clipPath", "pattern", "marker"]

/-- The text that nodes begin with. -/
def leadingText : List Node → Text
  | .text s :: nodes => s ++ leadingText nodes
  | _ => []

/-- The nodes behind the text that they begin with. -/
def dropText : List Node → List Node
  | .text _ :: nodes => dropText nodes
  | nodes => nodes

/-- No blank but other text begins the nodes. -/
def beginsBlank (nodes : List Node) : Bool := Text.allBlank (leadingText nodes)

/-- The container holds nothing and has no identifier. -/
def isEmptyContainer (h : Head) (content : List Node) : Bool :=
  content.all Node.isText && beginsBlank content && (h.get? "id").isNone

/-- The group has no attribute and begins with no text of its own. -/
def isBareGroup (h : Head) (content : List Node) : Bool :=
  h.name.base = ("g" : Text) && h.attributes.isEmpty && beginsBlank content

/-- Adapts nodes to their new place, the last one first. -/
def adaptAll (outer : List Head) : List Node → StateM Supply (List Node)
  | [] => pure []
  | node :: nodes => do
    let rest ← adaptAll outer nodes
    let first ← node.adapt outer
    pure (first :: rest)

/-- Discards a node. -/
def discard (node : Node) : StateM Supply Unit :=
  modify (node.discard fun _ _ => false)

mutual

/-- A node with the containers in it collapsed. -/
def collapseNode (outer : List Head) : Node → StateM Supply Node
  | .element h content => do
    let content ← collapseNodes (h :: outer) content
    pure (.element h content)
  | node => pure node

/-- Nodes with containers collapsed, the last ones and the inner ones first. A container stays
when text stands directly behind it. With a container goes the blank text behind it, and with a
group the blank text that it begins with.
-/
def collapseNodes (outer : List Head) : List Node → StateM Supply (List Node)
  | [] => pure []
  | node :: nodes => do
    let rest ← collapseNodes outer nodes
    let collapsed ← collapseNode outer node
    match collapsed with
    | .element h content =>
      if !containerNames.contains h.name.base || !beginsBlank rest then
        pure (collapsed :: rest)
      else if isEmptyContainer h content then
        discard collapsed
        pure (dropText rest)
      else if isBareGroup h content then
        let moved ← adaptAll outer (dropText content)
        discard (.element h [])
        pure (moved ++ dropText rest)
      else pure (collapsed :: rest)
    | other => pure (other :: rest)

end

/-- The document with containers collapsed; the root stays. -/
def collapseGroups (d : Document) : Document :=
  let (content, supply) := collapseNodes [d.root.head] d.root.content d.supply
  ⟨⟨d.root.head, content⟩, supply⟩

end SvgKit.Minify
