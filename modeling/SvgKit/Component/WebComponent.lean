import SvgKit.Component.Context
import SvgKit.Component.Template

/-! Custom elements that draw the SVG into an open shadow root. -/

namespace SvgKit.Component.WebComponent

/-- A type where types are written. -/
def typed (c : Context) (type : Text) : Text :=
  if c.options.typescript then type else []

/-- The comment that describes the element. -/
def description (c : Context) : List Text :=
  let tag := elementName c.name
  [ "/**",
    " * " ++ c.name ++ ": SVG icon custom element.",
    " *",
    " * Usage:",
    " *   <" ++ tag ++ " width=\"32\" height=\"32\" title=\"" ++ c.name ++ "\"></" ++ tag
      ++ ">",
    " */" ]

/-- The declaration of the attributes. -/
def attributesInterface (c : Context) : List Text :=
  linesIf c.typedProps
    [ "interface " ++ c.name ++ "Attributes \x7b",
      "  width: string | null;",
      "  height: string | null;",
      "  title?: string;",
      "\x7d",
      "" ]

/-- The type of the default sizes, behind a colon. -/
def defaultsType (c : Context) : Text :=
  if c.typedProps then ": " ++ c.name ++ "Attributes"
  else typed c ": \x7b width: string | null; height: string | null \x7d"

/-- The lines that declare the default sizes and the attributes of the root. -/
def constants (c : Context) : List Text :=
  [ "const DEFAULTS" ++ defaultsType c ++ " = \x7b width: " ++ sizeOr "null" c.width
      ++ ", height: " ++ sizeOr "null" c.height ++ " \x7d;",
    "",
    "const SVG_ATTRIBUTES = `" ++ escapeTemplate (c.rewrittenAttributes plainClass) ++ "`;",
    "" ]

/-- The lines that declare the content of the root. -/
def content (c : Context) : List Text :=
  let lines := indentedLines "  " (escapeTemplate c.content)
  if lines.isEmpty then ["const SVG_CONTENT = ``;", ""]
  else (["const SVG_CONTENT = `"] : List Text) ++ lines ++ (["`;", ""] : List Text)

/-- The function that escapes a value for markup. -/
def escaping (c : Context) : List Text :=
  [ "function escapeHtml(value" ++ typed c ": string" ++ ")" ++ typed c ": string" ++ " \x7b",
    "  return value",
    "    .replace(/&/g, \"&amp;\")",
    "    .replace(/</g, \"&lt;\")",
    "    .replace(/>/g, \"&gt;\")",
    "    .replace(/\"/g, \"&quot;\");",
    "\x7d",
    "" ]

/-- The head of the class and its constructor. -/
def classStart (c : Context) : List Text :=
  [ "class " ++ c.name ++ " extends HTMLElement \x7b",
    "  static get observedAttributes()" ++ typed c ": string[]" ++ " \x7b",
    "    return [\"width\", \"height\", \"title\"];",
    "  \x7d",
    "",
    "  constructor() \x7b",
    "    super();",
    "    this.attachShadow(\x7b mode: \"open\" \x7d);",
    "  \x7d",
    "" ]

/-- The accessors of a size. -/
def accessors (c : Context) (size : Text) : List Text :=
  [ "  get " ++ size ++ "()" ++ typed c ": string | null" ++ " \x7b",
    "    return this.getAttribute(\"" ++ size ++ "\") ?? DEFAULTS." ++ size ++ ";",
    "  \x7d",
    "",
    "  set " ++ size ++ "(value" ++ typed c ": string | null" ++ ") \x7b",
    "    this.reflect(\"" ++ size ++ "\", value);",
    "  \x7d",
    "" ]

/-- A method that the browser calls and that draws the element. -/
def callback (c : Context) (name : Text) : List Text :=
  [ "  " ++ name ++ "()" ++ typed c ": void" ++ " \x7b",
    "    this.render();",
    "  \x7d",
    "" ]

/-- The method that sets or removes an attribute. -/
def reflection (c : Context) : List Text :=
  [ "  " ++ typed c "private " ++ "reflect(name" ++ typed c ": string" ++ ", value"
      ++ typed c ": string | null" ++ ")" ++ typed c ": void" ++ " \x7b",
    "    if (value === null) \x7b",
    "      this.removeAttribute(name);",
    "    \x7d else \x7b",
    "      this.setAttribute(name, value);",
    "    \x7d",
    "  \x7d",
    "" ]

/-- The style of the element and of its content. -/
def hostStyle : Text :=
  ":host\x7bdisplay:inline-block;line-height:0\x7dsvg\x7bdisplay:block\x7d"

/-- The method that draws the element, and the end of the class. -/
def rendering (c : Context) : List Text :=
  [ "  " ++ typed c "private " ++ "render()" ++ typed c ": void" ++ " \x7b",
    "    if (!this.shadowRoot) \x7b",
    "      return;",
    "    \x7d",
    "    const title = this.getAttribute(\"title\");",
    "    const width = this.width;",
    "    const height = this.height;",
    "    const size =",
    "      (width !== null ? ` width=\"$\x7bescapeHtml(width)\x7d\"` : \"\") +",
    "      (height !== null ? ` height=\"$\x7bescapeHtml(height)\x7d\"` : \"\");",
    "    this.shadowRoot.innerHTML =",
    "      `<style>" ++ hostStyle ++ "</style>` +",
    "      `<svg$\x7bSVG_ATTRIBUTES\x7d$\x7bsize\x7d>` +",
    "      (title ? `<title>$\x7bescapeHtml(title)\x7d</title>` : \"\") +",
    "      SVG_CONTENT +",
    "      \"</svg>\";",
    "  \x7d",
    "\x7d",
    "" ]

/-- The lines that make the element known, unless its name is taken. -/
def registration (c : Context) : List Text :=
  let tag := Json.asciiString (elementName c.name)
  [ "if (!customElements.get(" ++ tag ++ ")) \x7b",
    "  customElements.define(" ++ tag ++ ", " ++ c.name ++ ");",
    "\x7d",
    "" ]

/-- The component's source. -/
def source (c : Context) : Source where
  code :=
    Text.join ['\n']
      (description c ++ attributesInterface c ++ constants c ++ content c ++ escaping c
        ++ classStart c ++ accessors c "width" ++ accessors c "height"
        ++ callback c "connectedCallback" ++ callback c "attributeChangedCallback"
        ++ reflection c ++ rendering c ++ registration c ++ [c.exportLine, []])
  extension := if c.options.typescript then ".ts" else ".js"
  language := if c.options.typescript then "typescript" else "javascript"

end SvgKit.Component.WebComponent
