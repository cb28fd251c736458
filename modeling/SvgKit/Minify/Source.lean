import SvgKit.Failure
import SvgKit.Xml.Reader

/-! Reading the document that is to be minified. -/

namespace SvgKit.Minify

/-- The text without the declaration of XML at its head. -/
def dropDeclaration (s : Text) : Text :=
  match Text.dropLiteral? "<?xml" (Text.dropBlank s) with
  | none => s
  | some rest =>
    match rest.dropWhile (· ≠ '>') with
    | _ :: after => if (rest.takeWhile (· ≠ '>')).getLast? = some '?' then after else s
    | [] => s

/-- An encoding is given at the head of the text, behind a blank. -/
def givesEncoding (s : Text) : Bool :=
  match s with
  | [] => false
  | c :: _ =>
    if !Text.isBlank c then false
    else
      match (Text.dropLiteral? "encoding" (Text.dropBlank s)).map Text.dropBlank with
      | some ('=' :: s) =>
        match Text.dropBlank s with
        | quote :: s =>
          let isQuote (c : Char) := c == '"' || c == '\''
          isQuote quote && s.any isQuote
        | [] => false
      | _ => false

/-- An encoding is given before the first `>`. -/
def givesEncodingInTag : Text → Bool
  | [] => false
  | c :: s => givesEncoding (c :: s) || (c ≠ '>' && givesEncodingInTag s)

/-- The text begins with a declaration of XML that gives an encoding. -/
def declaresEncoding (s : Text) : Bool :=
  match Text.dropLiteral? "<?xml" s with
  | some (c :: rest) => c ≠ '>' && givesEncodingInTag rest
  | _ => false

/-- The document that a text writes; its root is an `svg` element of any namespace. -/
def readDocument (s : Text) : Except Failure Xml.Document :=
  let source := dropDeclaration s
  if declaresEncoding source then .error .declaredEncoding
  else
    match Xml.Document.ofText? source with
    | none => .error .unreadable
    | some document =>
      let name := document.root.head.name.base
      if name = ("svg" : Text) then .ok document else .error (.wrongRoot name)

end SvgKit.Minify
