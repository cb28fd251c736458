import SvgKit.Markup.CamelCase
import SvgKit.Minify.Basic
import SvgKit.Optimize.Metrics
import SvgKit.Sanitize.Basic

/-! Optimization of a document: its dangerous content is removed or reported, it is minified,
and its attributes get the names that JSX wants.
-/

namespace SvgKit.Optimize

/-- What is to be optimized, and how. -/
structure Request where
  content : Text
  filename : Option Text := none
  camelCase : Bool := true
  sanitize : Bool := false
  limit : Option Int := none
  deriving Repr, DecidableEq

/-- An optimized document. -/
structure Result where
  filename : Text
  metrics : Metrics
  camelCase : Bool
  sanitized : Bool
  warnings : List Text
  text : Text
  deriving Repr, DecidableEq

/-- The file name of a document that has none. -/
def untitled : Text := "untitled.svg"

/-- A file name, unless it is absent or empty. -/
def nameOr : Option Text → Text
  | none => untitled
  | some name => if name.isEmpty then untitled else name

/-- The result in the order in which it is shown; without warnings there is a null. -/
def Result.toJson (r : Result) : Json :=
  .object
    [ ("success", .bool true),
      ("filename", .string r.filename),
      ("optimization", r.metrics.toJson),
      ("camel_case_applied", .bool r.camelCase),
      ("sanitized", .bool r.sanitized),
      ("security_warnings",
        if r.warnings.isEmpty then .null else .array (r.warnings.map .string)),
      ("result", .string r.text) ]

-----------------------------------------------------------------------------------------
-- Tools
-----------------------------------------------------------------------------------------

/-- What does the work of an optimization. -/
structure Tools where
  sanitize : Text → Sanitize.Outcome := Sanitize.sanitize {}
  scan : Text → List Text := Sanitize.warnings
  minify : Text → Except Failure Text := Minify.shrink 3

/-- A piece of work given to a tool, with the text that it is given. -/
inductive Task where
  | sanitize (s : Text)
  | scan (s : Text)
  | minify (s : Text)
  deriving Repr, DecidableEq

/-- Optimizes a document with the given tools; also the tasks, in the order in which they were
given.
-/
def runTasks (tools : Tools) (r : Request) : Except Failure (Result × List Task) := do
  let original := Text.trim r.content
  if !(Text.startsWith original "<svg" || Text.startsWith original "<?xml") then
    throw .notSvg
  if let some limit := r.limit then
    checkSize limit original
  let (checking, processed, warnings) :=
    if r.sanitize then
      let outcome := tools.sanitize original
      (.sanitize original, outcome.text, outcome.issues)
    else (Task.scan original, original, tools.scan original)
  let minified ← tools.minify processed
  let text := if r.camelCase then Markup.camelCaseAttributes minified else minified
  let result : Result := {
    filename := nameOr r.filename
    metrics := .compare original text
    camelCase := r.camelCase
    sanitized := r.sanitize
    warnings
    text }
  pure (result, [checking, .minify processed])

/-- Optimizes a document with the given tools. -/
def runWith (tools : Tools) (r : Request) : Except Failure Result :=
  (runTasks tools r).map (·.1)

/-- Optimizes a document. -/
def run (r : Request) : Except Failure Result := runWith {} r

-----------------------------------------------------------------------------------------
-- Fixed answers
-----------------------------------------------------------------------------------------

/-- Fixed answers in place of tools. -/
structure StandIns where
  sanitized : Option Sanitize.Outcome := none
  warnings : Option (List Text) := none
  minified : Option Text := none
  deriving Repr, DecidableEq

/-- The tools, some of them replaced by fixed answers. -/
def StandIns.tools (s : StandIns) : Tools where
  sanitize text := s.sanitized.getD (Sanitize.sanitize {} text)
  scan text := s.warnings.getD (Sanitize.warnings text)
  minify text :=
    match s.minified with
    | some fixed => .ok fixed
    | none => Minify.shrink 3 text

/-- The task is answered by a fixed answer. -/
def StandIns.answers (s : StandIns) : Task → Bool
  | .sanitize _ => s.sanitized.isSome
  | .scan _ => s.warnings.isSome
  | .minify _ => s.minified.isSome

/-- Optimizes a document with fixed answers; also the tasks that they answered. -/
def runStandIns (s : StandIns) (r : Request) : Except Failure (Result × List Task) :=
  (runTasks s.tools r).map fun (result, tasks) => (result, tasks.filter s.answers)

end SvgKit.Optimize
