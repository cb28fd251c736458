import SvgKit.Failure
import SvgKit.Markup.Attribute
import SvgKit.Text.Case
import SvgKit.Text.Scanner

/-! The root element of a text: the attributes of its first `<svg` tag and everything up to the
last `</svg>` tag, whatever stands between.
-/

namespace SvgKit.Markup

/-- An attribute of a root: its name, its value without quotes, and the text it was read from. -/
structure RootAttribute where
  name : Text
  value : Option Text
  raw : Text
  deriving Repr, DecidableEq

/-- A root taken apart. -/
structure Root where
  attributes : Text
  content : Text
  attributeList : List RootAttribute
  deriving Repr, DecidableEq

/-- The value of the first attribute of a name. -/
def Root.get? (r : Root) (name : Text) : Option Text :=
  ((r.attributeList.find? (·.name = name)).map (·.value)).join

-----------------------------------------------------------------------------------------
-- Attributes
-----------------------------------------------------------------------------------------

/-- A written value without its quotes. -/
def unquote (value : Text) : Text :=
  match value with
  | '"' :: inner => inner.dropLast
  | '\'' :: inner => inner.dropLast
  | _ => value

/-- The root attribute that a written attribute is. -/
def RootAttribute.ofAttribute (a : Attribute) : RootAttribute :=
  ⟨a.name, a.value.map fun (_, value) => unquote value, a.text⟩

/-- Finds attributes in the text of a root tag. -/
def attributeScanner : Scanner Attribute where
  read := readAttribute? bareInRoot
  shorter := length_readAttribute?
  suffix h := ⟨_, (eq_of_readAttribute? h).symm⟩

/-- The attributes in a text, in order. -/
def splitAttributes (s : Text) : List RootAttribute :=
  (attributeScanner.findAll s).map .ofAttribute

-----------------------------------------------------------------------------------------
-- The root
-----------------------------------------------------------------------------------------

/-- What follows the first `<svg` that a blank, a slash or a `>` ends. -/
def findRoot? : Text → Option Text
  | [] => none
  | c :: s =>
    match Text.dropFolded? "<svg" (c :: s) with
    | some (d :: rest) =>
      if Text.isBlank d || d == '/' || d == '>' then some (d :: rest) else findRoot? s
    | _ => findRoot? s

/-- The attribute text of a root tag whose `<svg` has been read, and what follows the tag. -/
def readRootTag? (s : Text) : Option (Text × Text) :=
  let (attributes, rest) := readAttributes bareInRoot s
  match rest.dropWhile Text.isBlank with
  | '>' :: left => some (attributesText attributes, left)
  | _ => none

/-- The head of the text is an end tag of a root. -/
def isRootEnd (s : Text) : Bool :=
  match Text.dropFolded? "</svg" s with
  | some rest => (rest.dropWhile Text.isBlank).head? == some '>'
  | none => false

/-- The text before the last end tag of a root; `passed` has been read, in reverse order, and
`best` is the best answer so far.
-/
def beforeLastEnd? (passed : Text) (best : Option Text) : Text → Option Text
  | [] => best.map List.reverse
  | c :: s =>
    beforeLastEnd? (c :: passed) (if isRootEnd (c :: s) then some passed else best) s

/-- The root element of a text. -/
def Root.ofText (s : Text) : Except RootFault Root :=
  match findRoot? s with
  | none => .error .absent
  | some afterName =>
    match readRootTag? afterName with
    | none => .error .unopened
    | some (attributes, rest) =>
      match beforeLastEnd? [] none rest with
      | none => .error .unclosed
      | some content =>
        let attributes := Text.trim attributes
        .ok ⟨attributes, content, splitAttributes attributes⟩

end SvgKit.Markup
