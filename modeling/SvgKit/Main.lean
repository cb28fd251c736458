import SvgKit.CommandLine.Run

/-! The program: it runs a command on files of the file system. -/

namespace SvgKit.CommandLine

/-- Why the file system does not open a file. -/
def reasonOf : IO.Error → FileReason
  | .inappropriateType .. => .notDirectory
  | .illegalOperation .. => .isDirectory
  | _ => .missing

/-- Writes the result of a command; the text for the standard output is given back. -/
def saveResult : Option (Option Text × Text) → IO (Except Trouble Text)
  | none => pure (.ok [])
  | some (none, text) => pure (.ok (endLine text))
  | some (some path, text) => do
    try
      IO.FS.writeFile (String.ofList path) (String.ofList text)
      pure (.ok [])
    catch e => pure (.error (.file ⟨reasonOf e, path⟩))

/-- Runs a command; the outcome does not tell about other files. -/
def Command.perform (c : Command) : IO Outcome := do
  let nowhere : Directory := ⟨[]⟩
  let bytes ←
    try
      let bytes ← IO.FS.readBinFile (String.ofList c.input)
      pure (.ok bytes.toList)
    catch e => pure (.error (Trouble.file ⟨reasonOf e, c.input⟩))
  match bytes >>= decodeFile >>= c.run with
  | .error trouble => pure (.ofTrouble nowhere trouble)
  | .ok effect =>
    match ← saveResult effect.result with
    | .error trouble => pure (.ofTrouble nowhere trouble)
    | .ok text =>
      pure {
        code := effect.code
        output := text ++ linesText effect.output
        errors := linesText effect.errors
        directory := nowhere }

end SvgKit.CommandLine

open SvgKit CommandLine in
/-- Runs the command line. -/
def main (args : List String) : IO UInt32 := do
  let usage : Outcome := { code := 2, errors := "usage error\n", directory := ⟨[]⟩ }
  let outcome ←
    match Invocation.ofArguments? (args.map Text.ofString) with
    | none => pure usage
    | some (.run command) => command.perform
    | some .version =>
      pure { code := 0, output := endLine versionLine, directory := ⟨[]⟩ }
    | some .help => pure { code := 0, directory := ⟨[]⟩ }
  IO.print (String.ofList outcome.output)
  IO.eprint (String.ofList outcome.errors)
  pure (UInt32.ofNat outcome.code)
