import SvgKit.CommandLine.Command
import SvgKit.CommandLine.Directory
import SvgKit.Component.Registry
import SvgKit.Lint.Report
import SvgKit.Optimize.Basic
import SvgKit.Service.Description

/-! What commands do: they read one file and write to a file or to the standard output. -/

namespace SvgKit.CommandLine

/-- What a command that succeeds leaves: a result for the output file or the standard output,
lines for the standard output and for the standard error, and the exit code.
-/
structure Effect where
  result : Option (Option Text × Text) := none
  output : List Text := []
  errors : List Text := []
  code : Nat := 0
  deriving Repr, DecidableEq

/-- What keeps a command from succeeding. -/
inductive Trouble where
  | failure (f : Failure)
  | encoding (f : Text.Utf8Fault)
  | unfitName (name : Text)
  | file (f : FileFault)
  deriving Repr, DecidableEq

/-- The wording of the trouble. -/
def Trouble.message : Trouble → Text
  | .failure f => f.message
  | .encoding f => f.message
  | .unfitName name =>
    "1 validation error for GenerationOptions\ncomponent_name\n  Value error, "
      ++ Component.nameComplaint name
  | .file f => f.message

/-- The text of a file in UTF-8, with a line feed for each line end. -/
def decodeFile (bytes : List UInt8) : Except Trouble Text :=
  match Text.decodeUtf8 bytes with
  | .ok s => .ok (Text.unifyLines s)
  | .error fault => .error (.encoding fault)

/-- The work of an optimization. -/
def optimizeFile (r : Optimize.Request) : Except Trouble Optimize.Result :=
  (Optimize.run r).mapError .failure

/-- The line that tells what an optimization saved. -/
def savingsLine (r : Optimize.Result) : Text :=
  r.filename ++ ": " ++ Text.ofNat r.metrics.originalSize ++ " -> "
    ++ Text.ofNat r.metrics.optimizedSize ++ " bytes (" ++ r.metrics.savedPercent ++ " saved)"

/-- What a command does with the text of its input file. -/
def Command.run (c : Command) (content : Text) : Except Trouble Effect :=
  let filename := Component.baseName c.input
  match c with
  | .optimize _ output camelCase sanitize json => do
    let result ← optimizeFile { content, filename := some filename, camelCase, sanitize }
    let text := if json then result.toJson.withoutNulls.indented else result.text
    pure {
      result := some (output, text)
      errors := savingsLine result :: result.warnings.map fun w : Text => "warning: " ++ w }
  | .component _ framework output name typescript memoize propsInterface exportDefault width
      height optimized => do
    let svg ←
      if optimized then do
        let request : Optimize.Request :=
          { content, filename := some filename, camelCase := framework = .react }
        let result ← optimizeFile request
        pure result.text
      else pure content
    match name with
    | some name => if !Component.isComponentName name then throw (.unfitName name)
    | none => pure ()
    let options : Component.Options :=
      { name, typescript, memoize, propsInterface, exportDefault, width, height }
    let source ← (Component.generate framework.name svg filename options).mapError .failure
    pure { result := some (output, source.code) }
  | .validate _ =>
    let report := Lint.check content
    .ok { output := report.lines, code := if report.valid then 0 else 1 }

/-- Lines with their ends. -/
def linesText (lines : List Text) : Text := lines.flatMap (· ++ ['\n'])

/-- A text that ends a line. -/
def endLine (s : Text) : Text := if s.getLast? = some '\n' then s else s ++ ['\n']

/-- What a command line leaves behind. -/
structure Outcome where
  code : Nat
  output : Text := []
  errors : Text := []
  directory : Directory

/-- What trouble leaves behind. -/
def Outcome.ofTrouble (d : Directory) (t : Trouble) : Outcome :=
  { code := 1, errors := "error: " ++ t.message ++ ['\n'], directory := d }

/-- The directory and the standard output once a result is written. -/
def writeResult (d : Directory) : Option (Option Text × Text) → Except Trouble (Directory × Text)
  | none => .ok (d, [])
  | some (none, text) => .ok (d, endLine text)
  | some (some path, text) =>
    ((d.write path text.utf8Bytes).mapError .file).map fun d => (d, [])

/-- Runs a command in a directory. -/
def Command.execute (c : Command) (d : Directory) : Outcome :=
  let work : Except Trouble Outcome := do
    let bytes ← (d.read c.input).mapError .file
    let content ← decodeFile bytes
    let effect ← c.run content
    let (directory, text) ← writeResult d effect.result
    pure {
      code := effect.code
      output := text ++ linesText effect.output
      errors := linesText effect.errors
      directory }
  match work with
  | .ok outcome => outcome
  | .error trouble => .ofTrouble d trouble

/-- The line that tells the version. -/
def versionLine : Text := Service.serviceName ++ " " ++ Service.version

/-- Runs a command line in a directory; none when it is not understood. -/
def execute? (args : List Text) (d : Directory) : Option Outcome :=
  (Invocation.ofArguments? args).map fun
    | .run command => command.execute d
    | .version => { code := 0, output := versionLine ++ ['\n'], directory := d }
    | .help => { code := 0, directory := d }

end SvgKit.CommandLine
