import SvgKit.Markup.Rewrite
import SvgKit.Text.Case

/-! Attribute names with hyphens and their forms with inner capitals. -/

namespace SvgKit.Markup

/-- The text with its first character in capitals. -/
def capitalize : Text → Text
  | [] => []
  | c :: s => Text.upperChar c ++ s

/-- The name without hyphens: every part but the first is capitalized. -/
def camelCase (name : Text) : Text :=
  match Text.splitOnChar (· == '-') name with
  | [] => []
  | first :: rest => first ++ rest.flatMap capitalize

/-- A Latin letter when case is ignored, or an ASCII digit. -/
def isKebabChar (c : Char) : Bool := Text.isFoldedLetter c || c.isDigit

/-- The name without the line feed at its end. -/
def dropFinalLineFeed (name : Text) : Text :=
  if name.getLast? = some '\n' then name.dropLast else name

/-- Parts of letters and digits with hyphens between them: two at least, the first of which
begins with a letter. A line feed at the end does not count.
-/
def isKebabCase (name : Text) : Bool :=
  match Text.splitOnChar (· == '-') (dropFinalLineFeed name) with
  | (c :: first) :: part :: parts =>
    Text.isFoldedLetter c && first.all isKebabChar
      && (part :: parts).all fun p => !p.isEmpty && p.all isKebabChar
  | _ => false

/-- The value stands in quotes. -/
def isQuoted (value : Text) : Bool :=
  match value with
  | c :: _ => c == '"' || c == '\''
  | [] => false

/-- Gives an attribute with a hyphenated name and a quoted value its form with capitals. -/
def camelCaseAttribute : Rewriter := fun _ name value =>
  match value with
  | some v => if isQuoted v && isKebabCase name then (camelCase name, value) else (name, value)
  | none => (name, value)

/-- The text with every hyphenated attribute name that has a quoted value in the form with
capitals.
-/
def camelCaseAttributes (s : Text) : Text := rewriteAttributes camelCaseAttribute s

end SvgKit.Markup
