import SvgKit.Component.Context

/-! Vue single-file components. -/

namespace SvgKit.Component.Vue

/-- The lines that open the template and its element. -/
def templateStart (c : Context) : List Text :=
  [ "<template>",
    "  <svg" ++ c.rewrittenAttributes plainClass ++ " :width=\"width\" :height=\"height\">",
    "    <title v-if=\"title\">\x7b\x7b title \x7d\x7d</title>" ]

/-- The lines that close the template and open the script. -/
def scriptStart (c : Context) : List Text :=
  [ "  </svg>",
    "</template>",
    "",
    if c.options.typescript then "<script lang=\"ts\">" else "<script>",
    "import \x7b defineComponent \x7d from \"vue\";" ]

/-- The declaration of the properties. -/
def propsInterface (c : Context) : List Text :=
  linesIf c.typedProps
    [ "import type \x7b PropType \x7d from \"vue\";",
      "",
      "interface " ++ c.name ++ "Props \x7b",
      "  title?: string;",
      "  width?: number | string;",
      "  height?: number | string;",
      "\x7d" ]

/-- The line of a property: its type, and its default. -/
def property (c : Context) (name base default : Text) : Text :=
  let type : Text :=
    if c.typedProps then
      base ++ " as PropType<" ++ c.name ++ "Props[\"" ++ name ++ "\"]>"
    else base
  "    " ++ name ++ ": \x7b type: " ++ type ++ ", default: " ++ default ++ " \x7d,"

/-- The lines that define the component and close the script. -/
def definition (c : Context) : List Text :=
  [ "",
    "export default defineComponent(\x7b",
    "  name: " ++ Json.asciiString c.name ++ ",",
    "  props: \x7b",
    property c "title" "String" "undefined",
    property c "width" "[String, Number]" (sizeOr "undefined" c.width),
    property c "height" "[String, Number]" (sizeOr "undefined" c.height),
    "  \x7d,",
    "\x7d);",
    "</script>",
    "" ]

/-- The component's source. -/
def source (c : Context) : Source where
  code :=
    Text.join ['\n']
      (templateStart c ++ indentedLines "    " c.content ++ scriptStart c ++ propsInterface c
        ++ definition c)
  extension := ".vue"
  language := "vue"

end SvgKit.Component.Vue
