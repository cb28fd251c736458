import SvgKit.Component.Name
import SvgKit.Component.Options
import SvgKit.Markup.Root

/-! What every component generator works from: the name, the content of the root element, its
attributes and the default size.
-/

namespace SvgKit.Component

/-- A component about to be generated. -/
structure Context where
  name : Text
  content : Text
  attributes : List Markup.RootAttribute
  width : Option Text
  height : Option Text
  options : Options
  deriving Repr, DecidableEq

/-- The root attributes that a component sets itself. -/
def managedAttributes : List Text := ["xmlns", "width", "height"]

/-- The context of an SVG text. A size given by the options goes before the root's own. -/
def Context.ofSvg (svg filename : Text) (options : Options) : Except Failure Context :=
  match Markup.Root.ofText svg with
  | .error fault => .error (.noComponent fault)
  | .ok root => .ok {
      name := options.name.getD (nameOfFile filename)
      content := root.content
      attributes := root.attributeList.filter fun a => !managedAttributes.contains a.name
      width := options.width <|> root.get? "width"
      height := options.height <|> root.get? "height"
      options }

/-- Properties are declared with their types. -/
def Context.typedProps (c : Context) : Bool := c.options.typescript && c.options.propsInterface

/-- The root attributes as they were written, each behind a space. -/
def Context.plainAttributes (c : Context) : Text :=
  let text := Text.join [' '] (c.attributes.map (·.raw))
  if text.isEmpty then [] else ' ' :: text

/-- The root attributes rewritten, each behind a space. They are read as those of an `svg`
tag.
-/
def Context.rewrittenAttributes (c : Context) (f : Markup.Rewriter) : Text :=
  let text := Text.join [' '] (c.attributes.map (·.raw))
  if text.isEmpty then []
  else
    let tag : Text := "<svg " ++ text ++ ">"
    ' ' :: ((Markup.rewriteAttributes f tag).drop 5).dropLast

/-- The lines of markup trimmed, without blank ones, each behind a margin. -/
def indentedLines (margin markup : Text) : List Text :=
  let lines := (Text.lines (Text.trim markup)).map Text.trim
  (lines.filter (!·.isEmpty)).map (margin ++ ·)

/-- Markup with every line behind a margin. -/
def indent (margin markup : Text) : Text := Text.join ['\n'] (indentedLines margin markup)

/-- Gives `className` its plain name. -/
def plainClass : Markup.Rewriter := fun _ name value =>
  (if name = ("className" : Text) then "class" else name, value)

/-- The source of a component, the extension of its file and its language. -/
structure Source where
  code : Text
  extension : Text
  language : Text
  deriving Repr, DecidableEq

/-- The line that exports the component. -/
def Context.exportLine (c : Context) : Text :=
  if c.options.exportDefault then "export default " ++ c.name ++ ";"
  else "export \x7b " ++ c.name ++ " \x7d;"

/-- Lines that stand in the source under a condition. -/
def linesIf (condition : Bool) (lines : List Text) : List Text :=
  if condition then lines else []

/-- A default size in a script, where there may be none. -/
def sizeOr (absent : Text) : Option Text → Text
  | none => absent
  | some size => Json.asciiString size

end SvgKit.Component
