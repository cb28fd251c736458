import SvgKit.Minify.EditorContent
import SvgKit.Text.Scanner
import SvgKit.Text.Word

/-! Identifiers that nothing refers to, and definitions without a referenced one. -/

namespace SvgKit.Minify

open Xml

-----------------------------------------------------------------------------------------
-- References
-----------------------------------------------------------------------------------------

/-- A character of an identifier in a `url` reference. -/
def isUrlChar (c : Char) : Bool :=
  !(c == ')' || c == '\'' || c == '"' || Text.isBlank c)

/-- The text behind an optional quote. -/
def dropQuote : Text → Text
  | [] => []
  | c :: s => if c = '"' || c = '\'' then s else c :: s

/-- The identifier that a `url` reference at the head of a text refers to, and the rest. -/
def readUrlReference? (s : Text) : Option (Text × Text) :=
  match Text.dropLiteral? "url(" s with
  | none => none
  | some rest =>
    match dropQuote (Text.dropBlank rest) with
    | '#' :: s =>
      let name := s.takeWhile isUrlChar
      if name.isEmpty then none else some (name, s.dropWhile isUrlChar)
    | _ => none

/-- Dropping a quote leaves an end of the text. -/
theorem dropQuote_suffix (s : Text) : dropQuote s <:+ s := by
  unfold dropQuote
  split
  · simp
  · split
    · exact List.suffix_cons _ _
    · simp

/-- Reading a reference leaves a proper end of the text. -/
theorem readUrlReference?_suffix {s name rest : Text}
    (h : readUrlReference? s = some (name, rest))
    : rest <:+ s ∧ rest.length < s.length := by
  unfold readUrlReference? at h
  split at h
  · cases h
  · next after hd =>
    have hafter : after <:+ s := ⟨_, (Text.dropLiteral?_eq_some_iff.mp hd).symm⟩
    have hopen := (dropQuote_suffix (Text.dropBlank after)).trans
      ((List.dropWhile_suffix Text.isBlank).trans hafter)
    split at h
    · next left hleft =>
      dsimp only at h
      split at h
      · cases h
      · cases h
        rw [hleft] at hopen
        have hrest := (List.dropWhile_suffix (l := left) isUrlChar)
        refine ⟨hrest.trans ((List.suffix_cons _ _).trans hopen), ?_⟩
        have := hrest.length_le
        have := hopen.length_le
        simp only [List.length_cons] at this
        omega
    · cases h

/-- Finds `url` references. -/
def urlReferenceScanner : Scanner Text where
  read := readUrlReference?
  shorter := fun h => (readUrlReference?_suffix h).2
  suffix := fun h => (readUrlReference?_suffix h).1

/-- The identifier that the whole of a link refers to. -/
def linkTarget? (value : Text) : Option Text :=
  let isTargetChar (c : Char) := Text.isWord c || c == '.' || c == ':' || c == '-'
  match Text.dropBlank value with
  | '#' :: c :: s =>
    let rest := s.dropWhile isTargetChar
    if (c.isAlpha || c == '_') && Text.allBlank rest then
      some (c :: s.takeWhile isTargetChar)
    else none
  | _ => none

/-- The identifiers that an attribute refers to. -/
def attributeReferences (a : Attribute) : List Text :=
  let named :=
    if a.name.base = ("href" : Text) then (linkTarget? a.value).toList
    else if a.name.base = ("aria-labelledby" : Text)
        || a.name.base = ("aria-describedby" : Text) then
      Text.words a.value
    else []
  urlReferenceScanner.findAll a.value ++ named

/-- The identifiers that the attributes in a tree refer to. -/
def usedIds (e : Element) : List Text :=
  e.heads.flatMap fun h => h.attributes.flatMap attributeReferences

-----------------------------------------------------------------------------------------
-- Removal
-----------------------------------------------------------------------------------------

/-- Elements whose content may refer to identifiers in other ways. -/
def idSensitiveNames : List Text :=
  ["style", "script", "animate", "animateMotion", "animateTransform", "set"]

/-- An element of the tree may refer to identifiers in other ways. -/
def isIdSensitive (e : Element) : Bool :=
  e.heads.any fun h => idSensitiveNames.contains h.name.base

/-- The element holds definitions. -/
def isDefs (h : Head) : Bool := h.name.base = ("defs" : Text)

/-- The node is an element with a used identifier on it or in it. -/
def holdsUsedId (used : List Text) (node : Node) : Bool :=
  node.heads.any fun h => (h.get? "id").any used.contains

mutual

/-- A node without the unused definitions in it. -/
def pruneDefs (used : List Text) : Node → Node
  | .element h content => .element h (pruneAllDefs used (isDefs h) false content)
  | node => node

/-- Nodes without unused definitions. In an element that holds definitions each child without a
used identifier goes, and with it the text directly behind it; whether one has just gone is
given.
-/
def pruneAllDefs (used : List Text) (inDefs gone : Bool) : List Node → List Node
  | [] => []
  | .text s :: nodes =>
    if gone then pruneAllDefs used inDefs true nodes
    else .text s :: pruneAllDefs used inDefs false nodes
  | node :: nodes =>
    if inDefs && !holdsUsedId used node then pruneAllDefs used inDefs true nodes
    else pruneDefs used node :: pruneAllDefs used inDefs false nodes

end

mutual

/-- The unused definitions in a node, the outermost only. -/
def unusedDefs (used : List Text) : Node → List Node
  | .element h content => allUnusedDefs used (isDefs h) content
  | _ => []

/-- The unused definitions in nodes, the outermost only. -/
def allUnusedDefs (used : List Text) (inDefs : Bool) : List Node → List Node
  | [] => []
  | node :: nodes =>
    (if inDefs && !holdsUsedId used node then [node] else unusedDefs used node)
      ++ allUnusedDefs used inDefs nodes

end

/-- The head without an unused identifier. -/
def dropUnusedId (used : List Text) (h : Head) : Head :=
  match h.get? "id" with
  | none => h
  | some id => if used.contains id then h else h.erase "id"

/-- The document without unused definitions and identifiers; the root keeps its own. Nothing is
done when an element may refer to identifiers in other ways.
-/
def removeUnusedIds (d : Document) : Document :=
  if isIdSensitive d.root then d
  else
    let used := usedIds d.root
    let inDefs := isDefs d.root.head
    let content := pruneAllDefs used inDefs false d.root.content
    let removed := allUnusedDefs used inDefs d.root.content
    ⟨⟨d.root.head, Node.mapAllHeads (dropUnusedId used) content⟩,
      removed.foldl (fun supply node => node.discard (fun parent _ => isDefs parent) supply)
        d.supply⟩

end SvgKit.Minify
