import SvgKit.Component.Registry

/-! What the service tells about itself. -/

namespace SvgKit.Service

/-- The name of the service. -/
def serviceName : Text := "svgjsx"

/-- The version of the service. -/
def version : Text := "0.1.0"

/-- Health, version and frameworks. -/
def health : Json :=
  .object
    [ ("status", .string "ok"),
      ("version", .string version),
      ("generators",
        .array (Component.Registry.standard.all.map fun entry =>
          .string entry.framework.name)) ]

/-- A parameter of a tool: its name, its type, whether it is required, and what else is said. -/
def parameter (name type : Text) (isRequired : Bool) (more : List (Text × Json))
    : Text × Json :=
  (name, .object (("type", .string type) :: ("required", .bool isRequired) :: more))

/-- A tool with its parameters. -/
def tool (name description endpoint : Text) (parameters : List (Text × Json)) : Json :=
  .object
    [ ("name", .string name),
      ("description", .string description),
      ("method", .string "POST"),
      ("endpoint", .string endpoint),
      ("parameters", .object parameters) ]

/-- The parameter for the document. -/
def contentParameter : Text × Json := parameter "content" "string" true []

/-- The parameter for the file name. -/
def filenameParameter : Text × Json := parameter "filename" "string" false []

/-- The parameters that say how documents are optimized. -/
def optimizeParameters : List (Text × Json) :=
  [parameter "camel_case" "boolean" false [("default", .bool true)],
    parameter "sanitize" "boolean" false []]

/-- The tools of the service. -/
def tools : List Json :=
  [ tool "optimize_svg"
      "Optimize an SVG and optionally convert attributes to camelCase for JSX"
      "/api/optimize" ([contentParameter, filenameParameter] ++ optimizeParameters),
    tool "optimize_svg_batch" "Optimize multiple SVGs in a single request"
      "/api/optimize/batch" (parameter "items" "array" true [] :: optimizeParameters),
    tool "generate_component" "Generate a framework component from an SVG"
      "/api/components/\x7bframework\x7d"
      [ parameter "framework" "string" true
          [("enum", .array (Framework.all.map fun f => .string f.name))],
        contentParameter,
        filenameParameter,
        parameter "optimize" "boolean" false [("default", .bool true)],
        parameter "options" "object" false [] ],
    tool "validate_svg" "Check an SVG for accessibility, security and compatibility issues"
      "/api/validate" [contentParameter] ]

/-- The description of the service and its tools. -/
def description : Json :=
  .object
    [ ("name", .string serviceName),
      ("version", .string version),
      ("description",
        .string
          "SVG optimization with JSX camelCase conversion and framework component generation"),
      ("tools", .array tools) ]

end SvgKit.Service
