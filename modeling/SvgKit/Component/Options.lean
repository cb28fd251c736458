import SvgKit.Validation

/-! The options of component generation and the rule for component names. -/

namespace SvgKit.Component

/-- What a generated component looks like. -/
structure Options where
  name : Option Text := none
  typescript : Bool := true
  memoize : Bool := true
  propsInterface : Bool := true
  exportDefault : Bool := true
  width : Option Text := none
  height : Option Text := none
  deriving Repr, DecidableEq

/-- The words that are no component names. -/
def reservedWords : List Text :=
  (["False", "None", "True", "and", "as", "assert", "async", "await", "break", "class",
    "continue", "def", "del", "elif", "else", "except", "finally", "for", "from", "global",
    "if", "import", "in", "is", "lambda", "nonlocal", "not", "or", "pass", "raise", "return",
    "try", "while", "with", "yield"] : List String).map Text.ofString

/-- A letter, digit or underscore of ASCII. -/
def isIdentifierChar (c : Char) : Bool := c.isAlphanum || c == '_'

/-- A name made of ASCII letters, digits and underscores that begins with no digit and is not
reserved.
-/
def isComponentName (name : Text) : Bool :=
  match name with
  | [] => false
  | c :: rest =>
    (c.isAlpha || c == '_') && rest.all isIdentifierChar && !reservedWords.contains name

/-- The complaint about a name that is none. -/
def nameComplaint (name : Text) : Text :=
  "component_name must be a valid identifier, got " ++ Text.quoted name

/-- Reads a component name. -/
def readName (value : Json) : Validation Text :=
  match value.readString with
  | .valid name =>
    if isComponentName name then .valid name else .fail (.rejected (nameComplaint name))
  | .faulty faults => .faulty faults

/-- Reads options from the members of an object; absent ones have their default. -/
def Options.ofJson (value : Json) : Validation Options :=
  let flag (name : Text) := value.withDefault name true Json.readBool
  let size (name : Text) := value.withDefault name none (Json.readOptional Json.readString)
  Options.mk <$> value.withDefault "component_name" none (Json.readOptional readName)
    <*> flag "typescript" <*> flag "memoize" <*> flag "include_props_interface"
    <*> flag "export_default" <*> size "width" <*> size "height"

end SvgKit.Component
