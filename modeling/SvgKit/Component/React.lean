import SvgKit.Component.Jsx

/-! React function components. -/

namespace SvgKit.Component.React

/-- A size parameter with its default. -/
def sizeParameter (name : Text) : Option Text → Text
  | none => name
  | some size => name ++ " = " ++ Json.asciiString size

/-- The import lines, and a blank line behind them. -/
def imports (o : Options) : List Text :=
  let lines :=
    linesIf o.memoize ["import \x7b memo \x7d from \"react\";"]
      ++ linesIf o.typescript ["import type \x7b SVGProps \x7d from \"react\";"]
  if lines.isEmpty then [] else lines ++ [[]]

/-- The declaration of the properties. -/
def propsInterface (c : Context) : List Text :=
  linesIf c.typedProps
    [ "interface " ++ c.name ++ "Props extends SVGProps<SVGSVGElement> \x7b",
      "  title?: string;",
      "  width?: number | string;",
      "  height?: number | string;",
      "\x7d",
      "" ]

/-- The type of the properties, behind a colon. -/
def propsType (c : Context) : Text :=
  if c.typedProps then ": " ++ c.name ++ "Props"
  else if c.options.typescript then ": SVGProps<SVGSVGElement> & \x7b title?: string \x7d"
  else ""

/-- The parameters of the function. -/
def parameters (c : Context) : Text :=
  "\x7b title, " ++ sizeParameter "width" c.width ++ ", " ++ sizeParameter "height" c.height
    ++ ", ...props \x7d" ++ propsType c

/-- The line that opens the function. -/
def functionHead (c : Context) : Text :=
  let head : Text := "function " ++ c.name ++ "(" ++ parameters c ++ ") \x7b"
  if c.options.memoize then "const " ++ c.name ++ " = memo(" ++ head else head

/-- The lines that open the element of the function. -/
def elementStart (c : Context) : List Text :=
  [ "  return (",
    "    <svg" ++ c.rewrittenAttributes jsxAttribute
      ++ " width=\x7bwidth\x7d height=\x7bheight\x7d \x7b...props\x7d>",
    "      \x7btitle && <title>\x7btitle\x7d</title>\x7d" ]

/-- The lines that close the element and the function. -/
def elementEnd (c : Context) : List Text :=
  ["    </svg>", "  );", if c.options.memoize then "\x7d);" else "\x7d", ""]

/-- The component's source. -/
def source (c : Context) : Source where
  code :=
    Text.join ['\n']
      (imports c.options ++ propsInterface c ++ [functionHead c] ++ elementStart c
        ++ indentedLines "      " (jsxMarkup c.content) ++ elementEnd c ++ [c.exportLine, []])
  extension := if c.options.typescript then ".tsx" else ".jsx"
  language := if c.options.typescript then "typescript" else "javascript"

end SvgKit.Component.React
