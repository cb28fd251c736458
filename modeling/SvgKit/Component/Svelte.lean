import SvgKit.Component.Context

/-! Svelte components; the file itself is the component. -/

namespace SvgKit.Component.Svelte

/-- The comment that describes the component, and the line that opens the script. -/
def scriptStart (c : Context) : List Text :=
  [ "<!--",
    "  @component",
    "  " ++ c.name
      ++ ": SVG icon. Accepts title, width and height; other attributes go to <svg>.",
    "-->",
    if c.options.typescript then "<script lang=\"ts\">" else "<script>" ]

/-- The declaration of the properties. -/
def propsInterface (c : Context) : List Text :=
  linesIf c.typedProps
    [ "  import type \x7b SVGAttributes \x7d from \"svelte/elements\";",
      "",
      "  interface $$Props extends SVGAttributes<SVGSVGElement> \x7b",
      "    title?: string;",
      "    width?: number | string;",
      "    height?: number | string;",
      "  \x7d",
      "" ]

/-- The line of a property: its type where types are written, and its default. -/
def property (c : Context) (name type default : Text) : Text :=
  let written : Text :=
    if c.options.typescript then ": " ++ type ++ " | undefined" else ""
  "  export let " ++ name ++ written ++ " = " ++ default ++ ";"

/-- The lines of the properties, the end of the script and the start of the element. -/
def element (c : Context) : List Text :=
  [ property c "title" "string" "undefined",
    property c "width" "number | string" (sizeOr "undefined" c.width),
    property c "height" "number | string" (sizeOr "undefined" c.height),
    "</script>",
    "",
    "<svg" ++ c.rewrittenAttributes plainClass
      ++ " \x7bwidth\x7d \x7bheight\x7d \x7b...$$restProps\x7d>",
    "  \x7b#if title\x7d<title>\x7btitle\x7d</title>\x7b/if\x7d" ]

/-- The component's source. -/
def source (c : Context) : Source where
  code :=
    Text.join ['\n']
      (scriptStart c ++ propsInterface c ++ element c ++ indentedLines "  " c.content
        ++ (["</svg>", ""] : List Text))
  extension := ".svelte"
  language := "svelte"

end SvgKit.Component.Svelte
