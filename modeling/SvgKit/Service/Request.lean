import SvgKit.Component.Options

/-! The requests that the service answers, read from JSON. -/

namespace SvgKit.Service

/-- A request to optimize a document. -/
structure OptimizeRequest where
  content : Text
  filename : Option Text
  camelCase : Bool
  sanitize : Option Bool
  deriving Repr, DecidableEq

/-- A document of a batch. -/
structure BatchItem where
  content : Text
  filename : Option Text
  deriving Repr, DecidableEq

/-- A request to optimize several documents alike. -/
structure BatchRequest where
  items : List BatchItem
  camelCase : Bool
  sanitize : Option Bool
  deriving Repr, DecidableEq

/-- A request to generate a component. -/
structure ComponentRequest where
  content : Text
  filename : Text
  optimize : Bool
  options : Component.Options
  deriving Repr, DecidableEq

/-- The content of a document. -/
def readContent (value : Json) : Validation Text := value.required "content" Json.readString

/-- A file name that may be null or absent. -/
def readFilename (value : Json) : Validation (Option Text) :=
  value.withDefault "filename" none (Json.readOptional Json.readString)

/-- Whether attributes are camel-cased. -/
def readCamelCase (value : Json) : Validation Bool :=
  value.withDefault "camel_case" true Json.readBool

/-- Whether dangerous content is removed, if that is said. -/
def readSanitize (value : Json) : Validation (Option Bool) :=
  value.withDefault "sanitize" none (Json.readOptional Json.readBool)

/-- Reads a request to optimize a document. -/
def OptimizeRequest.ofJson : Json → Validation OptimizeRequest :=
  Json.readObject fun value =>
    OptimizeRequest.mk <$> readContent value <*> readFilename value <*> readCamelCase value
      <*> readSanitize value

/-- Reads a document of a batch. -/
def BatchItem.ofJson : Json → Validation BatchItem :=
  Json.readObject fun value => BatchItem.mk <$> readContent value <*> readFilename value

/-- Reads the documents of a batch, of which there is at least one. -/
def readItems (value : Json) : Validation (List BatchItem) :=
  match value.readArray BatchItem.ofJson with
  | .valid [] => .fail .tooShort
  | items => items

/-- Reads a request to optimize several documents. -/
def BatchRequest.ofJson : Json → Validation BatchRequest :=
  Json.readObject fun value =>
    BatchRequest.mk <$> value.required "items" readItems <*> readCamelCase value
      <*> readSanitize value

/-- Reads a request to generate a component. -/
def ComponentRequest.ofJson : Json → Validation ComponentRequest :=
  Json.readObject fun value =>
    ComponentRequest.mk <$> readContent value
      <*> value.withDefault "filename" "icon.svg" Json.readString
      <*> value.withDefault "optimize" true Json.readBool
      <*> value.withDefault "options" {} (Json.readObject Component.Options.ofJson)

/-- Reads a request to check a document: its content. -/
def readCheckRequest : Json → Validation Text := Json.readObject readContent

/-- Reads the body of a request. A null body counts as none. -/
def readBody {α : Type} (read : Json → Validation α) (body : Option Json) : Validation α :=
  let result : Validation α :=
    match body with
    | none => .fail .missing
    | some .null => .fail .missing
    | some value => read value
  result.under (.member "body")

end SvgKit.Service
