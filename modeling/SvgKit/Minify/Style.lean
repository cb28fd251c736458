import SvgKit.Text.Basic

/-! The declarations of a style attribute. -/

namespace SvgKit.Minify

/-- A property and its value. -/
structure Declaration where
  property : Text
  value : Text
  deriving Repr, DecidableEq

/-- The declaration that a text between two semicolons writes; without a colon it writes none. -/
def Declaration.ofText? (s : Text) : Option Declaration :=
  (Text.splitAtLiteral? [':'] s).map fun (property, value) =>
    ⟨Text.trim property, Text.trim value⟩

/-- The text of a declaration. -/
def Declaration.text (d : Declaration) : Text := d.property ++ ':' :: d.value

/-- The declarations of a style. -/
def declarations (style : Text) : List Declaration :=
  (Text.splitOnChar (· == ';') style).filterMap Declaration.ofText?

/-- A style without the blanks around its properties and values; none when there are none. -/
def compactStyle? (style : Text) : Option Text :=
  let parts := (declarations style).map Declaration.text
  if parts.isEmpty then none else some (Text.join [';'] parts)

end SvgKit.Minify
