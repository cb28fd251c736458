import SvgKit.Xml.Tree

/-! The text of a tree: declarations of namespaces before attributes, double quotes, and an
element without content as one tag.
-/

namespace SvgKit.Xml

/-- The spelling of a character in character data. -/
def escapeText (c : Char) : Text :=
  if c = '<' then "&lt;"
  else if c = '>' then "&gt;"
  else if c = '&' then "&amp;"
  else if c = '\r' then "&#13;"
  else [c]

/-- The spelling of a character in the value of an attribute. -/
def escapeValue (c : Char) : Text :=
  if c = '"' then "&quot;"
  else if c = '\t' then "&#9;"
  else if c = '\n' then "&#10;"
  else escapeText c

/-- The name with its label. -/
def Name.text (n : Name) : Text :=
  match n.binding.bind (·.label) with
  | none => n.base
  | some label => label ++ ':' :: n.base

/-- The name of an attribute that declares a namespace. -/
def Binding.name (b : Binding) : Text :=
  match b.label with
  | none => "xmlns"
  | some label => "xmlns:" ++ label

/-- An attribute behind a space. -/
def attributeText (name value : Text) : Text := ' ' :: name ++ ('=' :: '"' :: value) ++ ['"']

/-- The value of an attribute in its spelling. -/
def Attribute.spelled (a : Attribute) : Text := a.spelling.getD (a.value.flatMap escapeValue)

/-- What stands between the brackets of a start tag. -/
def Head.text (h : Head) : Text :=
  h.name.text ++ h.bindings.flatMap (fun b => attributeText b.name (b.uri.flatMap escapeValue))
    ++ h.attributes.flatMap fun a => attributeText a.name.text a.spelled

/-- An element whose content is written. -/
def elementText (h : Head) (isEmpty : Bool) (content : Text) : Text :=
  if isEmpty then '<' :: h.text ++ ['/', '>']
  else '<' :: h.text ++ '>' :: content ++ '<' :: '/' :: h.name.text ++ ['>']

mutual

/-- The text of a node. -/
def Node.write : Node → Text
  | .element head content => elementText head content.isEmpty (Node.writeAll content)
  | .text s => s.flatMap escapeText
  | .entity name => '&' :: name ++ [';']

/-- The text of nodes. -/
def Node.writeAll : List Node → Text
  | [] => []
  | node :: nodes => node.write ++ Node.writeAll nodes

end

/-- The text of an element. -/
def Element.write (e : Element) : Text :=
  elementText e.head e.content.isEmpty (Node.writeAll e.content)

end SvgKit.Xml
