import SvgKit.CommandLine.Arguments
import SvgKit.Failure

/-! The commands and their options. -/

namespace SvgKit.CommandLine

/-- What is to be done with an input file. -/
inductive Command where
  | optimize (input : Text) (output : Option Text) (camelCase sanitize json : Bool)
  | component (input : Text) (framework : Framework) (output name : Option Text)
      (typescript memoize propsInterface exportDefault : Bool) (width height : Option Text)
      (optimized : Bool)
  | validate (input : Text)
  deriving Repr, DecidableEq

/-- The input file of a command. -/
def Command.input : Command → Text
  | .optimize input .. => input
  | .component input .. => input
  | .validate input => input

/-- What a command line asks for. -/
inductive Invocation where
  | run (command : Command)
  | version
  | help
  deriving Repr, DecidableEq

/-- The options. -/
inductive Tag where
  | help
  | version
  | verbose
  | output
  | noCamelCase
  | sanitize
  | json
  | framework
  | name
  | js
  | noMemo
  | noPropsInterface
  | namedExport
  | width
  | height
  | noOptimize
  deriving Repr, DecidableEq

/-- The option that asks for help. -/
def helpFlag : Flag Tag := { tag := .help, names := ["-h", "--help"] }

/-- The options in front of a command. -/
def globalFlags : List (Flag Tag) :=
  [helpFlag, { tag := .version, names := ["--version"] },
    { tag := .verbose, names := ["-v", "--verbose"] }]

/-- The option that names the output file. -/
def outputFlag : Flag Tag :=
  { tag := .output, names := ["-o", "--output"], takesValue := true }

/-- The options of the optimize command. -/
def optimizeFlags : List (Flag Tag) :=
  [helpFlag, outputFlag, { tag := .noCamelCase, names := ["--no-camel-case"] },
    { tag := .sanitize, names := ["--sanitize"] }, { tag := .json, names := ["--json"] }]

/-- The options of the component command. -/
def componentFlags : List (Flag Tag) :=
  [helpFlag, { tag := .framework, names := ["-f", "--framework"], takesValue := true },
    outputFlag, { tag := .name, names := ["--name"], takesValue := true },
    { tag := .js, names := ["--js"] }, { tag := .noMemo, names := ["--no-memo"] },
    { tag := .noPropsInterface, names := ["--no-props-interface"] },
    { tag := .namedExport, names := ["--named-export"] },
    { tag := .width, names := ["--width"], takesValue := true },
    { tag := .height, names := ["--height"], takesValue := true },
    { tag := .noOptimize, names := ["--no-optimize"] }]

/-- The options of the validate command. -/
def validateFlags : List (Flag Tag) := [helpFlag]

/-- The operand and the options of a command; none when there is not exactly one operand, or an
option is unknown.
-/
def readSingle? (items : List (Item Tag)) : Option Text :=
  match operands items with
  | [input] => if hasUnknown items then none else some input
  | _ => none

/-- The optimize command. -/
def readOptimize? (items : List (Item Tag)) : Option Command :=
  (readSingle? items).map fun input =>
    .optimize input (valuesOf .output items).getLast? (!isSet .noCamelCase items)
      (isSet .sanitize items) (isSet .json items)

/-- The component command. Every framework that is named has to be known. -/
def readComponent? (items : List (Item Tag)) : Option Command := do
  let input ← readSingle? items
  let frameworks ← (valuesOf .framework items).mapM Framework.ofName?
  let framework ← frameworks.getLast?
  let last (tag : Tag) := (valuesOf tag items).getLast?
  pure (.component input framework (last .output) (last .name) (!isSet .js items)
    (!isSet .noMemo items) (!isSet .noPropsInterface items) (!isSet .namedExport items)
    (last .width) (last .height) (!isSet .noOptimize items))

/-- Reads the arguments of a command. A request for help goes before missing arguments. -/
def readCommand? (flags : List (Flag Tag)) (read? : List (Item Tag) → Option Command)
    (args : List Text) : Option Invocation := do
  let arguments ← classifyAll? flags args
  let items ← readItems? flags none arguments
  if isSet .help items then pure .help else (read? items).map .run

/-- Reads a command and its arguments. -/
def readNamed? (name : Text) (args : List Text) : Option Invocation :=
  if name = ("optimize" : Text) then readCommand? optimizeFlags readOptimize? args
  else if name = ("component" : Text) then readCommand? componentFlags readComponent? args
  else if name = ("validate" : Text) then
    readCommand? validateFlags (fun items => (readSingle? items).map .validate) args
  else none

/-- The argument is neither an operand nor a separator. -/
def Argument.isOption : Argument Tag → Bool
  | .option .. => true
  | .unknown => true
  | _ => false

/-- What the options in front of a command ask for by themselves: the version or help, whichever
comes first.
-/
def askedFor? (items : List (Item Tag)) : Option Invocation :=
  items.findSome? fun
    | .set .version => some .version
    | .set .help => some .help
    | _ => none

/-- Reads a command line; none when it is not understood. -/
def Invocation.ofArguments? (args : List Text) : Option Invocation := do
  let arguments ← classifyAll? globalFlags args
  let options := arguments.takeWhile Argument.isOption
  let items ← readItems? globalFlags none options
  match askedFor? items with
  | some invocation => pure invocation
  | none =>
    match args.drop options.length with
    | name :: args => if hasUnknown items then none else readNamed? name args
    | [] => none

end SvgKit.CommandLine
