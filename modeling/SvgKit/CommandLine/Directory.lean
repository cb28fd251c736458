import SvgKit.Text.Quoted

/-! A directory with its files, and the ways in which a file cannot be opened. -/

namespace SvgKit.CommandLine

/-- Why a file cannot be opened. -/
inductive FileReason where
  | missing
  | notDirectory
  | isDirectory
  deriving Repr, DecidableEq

/-- A file that cannot be opened. -/
structure FileFault where
  reason : FileReason
  path : Text
  deriving Repr, DecidableEq

/-- The wording of the fault. -/
def FileFault.message (f : FileFault) : Text :=
  let reason : Text :=
    match f.reason with
    | .missing => "[Errno 2] No such file or directory"
    | .notDirectory => "[Errno 20] Not a directory"
    | .isDirectory => "[Errno 21] Is a directory"
  reason ++ ": " ++ Text.quoted f.path

/-- The files below a directory, by the names on the way to them. -/
structure Directory where
  files : List (List Text × List UInt8)
  deriving Repr, DecidableEq

namespace Directory

/-- The names that a path leads through; one for the place where it stands is left out. -/
def names (path : Text) : List Text :=
  (Text.splitOnChar (· == '/') path).filter fun name => !name.isEmpty && name ≠ ['.']

/-- A directory with files of these paths. -/
def ofFiles (files : List (Text × List UInt8)) : Directory :=
  ⟨files.map fun (path, bytes) => (names path, bytes)⟩

/-- There is a directory at the end of the names. -/
def isDirectory (d : Directory) (names : List Text) : Bool :=
  names.isEmpty || d.files.any fun (file, _) => names.isPrefixOf file && names ≠ file

/-- What keeps the names behind others from being followed; the last one is not looked at. -/
def obstacle? (d : Directory) (passed : List Text) : List Text → Option FileReason
  | [] => none
  | [_] => none
  | name :: rest =>
    let here := passed ++ [name]
    if d.isDirectory here then d.obstacle? here rest
    else if (d.files.lookup here).isSome then some .notDirectory
    else some .missing

/-- The names that a path of a file leads through, unless something keeps it from being opened.
-/
def locate (d : Directory) (path : Text) : Except FileFault (List Text) :=
  let fault (reason : FileReason) : Except FileFault (List Text) := .error ⟨reason, path⟩
  if path.isEmpty || Text.startsWith path "/" then fault .missing
  else
    let names := names path
    match d.obstacle? [] names with
    | some reason => fault reason
    | none =>
      if d.isDirectory names then fault .isDirectory
      else if path.getLast? = some '/' then
        fault (if (d.files.lookup names).isSome then .notDirectory else .isDirectory)
      else .ok names

/-- The bytes of a file. -/
def read (d : Directory) (path : Text) : Except FileFault (List UInt8) := do
  let fault (reason : FileReason) : Except FileFault (List UInt8) := .error ⟨reason, path⟩
  match d.locate path with
  | .error f =>
    if f.reason = .isDirectory && !d.isDirectory (names path) then fault .missing
    else .error f
  | .ok names =>
    match d.files.lookup names with
    | some bytes => .ok bytes
    | none => fault .missing

/-- The directory once a file is written. -/
def write (d : Directory) (path : Text) (bytes : List UInt8) : Except FileFault Directory :=
  (d.locate path).map fun names =>
    ⟨d.files.filter (·.1 ≠ names) ++ [(names, bytes)]⟩

/-- The path of a file. -/
def pathOf (names : List Text) : Text := Text.join ['/'] names

/-- The files that are new or have changed since an earlier state. -/
def changes (before after : Directory) : List (Text × List UInt8) :=
  (after.files.filter fun (names, bytes) => before.files.lookup names ≠ some bytes).map
    fun (names, bytes) => (pathOf names, bytes)

end Directory

end SvgKit.CommandLine
