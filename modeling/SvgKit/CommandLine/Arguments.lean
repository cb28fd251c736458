import SvgKit.Text.Digit

/-! The arguments of a command: options, long ones of which may be shortened as long as they stay
unambiguous, and operands.
-/

namespace SvgKit.CommandLine

/-- An option with its names. -/
structure Flag (α : Type) where
  tag : α
  names : List Text
  takesValue : Bool := false

/-- An argument by itself. An option may have a text attached. -/
inductive Argument (α : Type) where
  | operand (s : Text)
  | option (flag : Flag α) (name : Text) (attached : Option Text)
  | unknown
  | separator

/-- What arguments mean, one after the other. -/
inductive Item (α : Type) where
  | operand (s : Text)
  | set (tag : α)
  | setTo (tag : α) (value : Text)
  | unknown

variable {α : Type}

/-- The option of exactly this name. -/
def findFlag? (flags : List (Flag α)) (name : Text) : Option (Flag α) :=
  flags.find? (·.names.contains name)

/-- The text before the first equals sign, and what is behind it. -/
def splitEquals (s : Text) : Text × Option Text :=
  match Text.splitAtLiteral? ['='] s with
  | some (before, after) => (before, some after)
  | none => (s, none)

/-- The options that an argument may stand for, with the names and what is attached. A long name
may be shortened; a text may be attached to a short name without an equals sign.
-/
def candidates (flags : List (Flag α)) (arg : Text) : List (Flag α × Text × Option Text) :=
  let named := flags.flatMap fun f => f.names.map fun name => (f, name)
  if Text.startsWith arg "--" then
    let (start, attached) := splitEquals arg
    (named.filter fun (_, name) => Text.startsWith name start).map fun (f, name) =>
      (f, name, attached)
  else
    (named.filter fun (_, name) => name = arg.take 2).map fun (f, name) =>
      (f, name, some (arg.drop 2))

/-- The text is a number below zero. -/
def isNegative (s : Text) : Bool :=
  match s with
  | '-' :: digits =>
    match digits.dropWhile Text.isDigit with
    | [] => !digits.isEmpty
    | '.' :: fraction => !fraction.isEmpty && fraction.all Text.isDigit
    | _ => false
  | _ => false

/-- What an argument is by itself; none when it is ambiguous. -/
def classify? (flags : List (Flag α)) (arg : Text) : Option (Argument α) :=
  if !Text.startsWith arg "-" || arg.length = 1 then some (.operand arg)
  else
    let (start, attached) := splitEquals arg
    match findFlag? flags arg, findFlag? flags start with
    | some flag, _ => some (.option flag arg none)
    | none, some flag => some (.option flag start attached)
    | none, none =>
      match candidates flags arg with
      | [(flag, name, attached)] => some (.option flag name attached)
      | _ :: _ :: _ => none
      | [] => if isNegative arg || arg.contains ' ' then some (.operand arg) else some .unknown

/-- What arguments are by themselves. Behind a separator all are operands. -/
def classifyAll? (flags : List (Flag α)) : List Text → Option (List (Argument α))
  | [] => some []
  | arg :: args =>
    if arg = ("--" : Text) then some (.separator :: args.map .operand)
    else
      match classify? flags arg with
      | none => none
      | some first => (classifyAll? flags args).map (first :: ·)

/-- What options mean that are joined behind one dash, the first of them known, and the last one
if it still needs a value; none when one is unknown.
-/
def readJoined? (flags : List (Flag α)) (flag : Flag α)
    : Text → Option (List (Item α) × Option (Flag α))
  | [] => if flag.takesValue then some ([], some flag) else some ([.set flag.tag], none)
  | c :: s =>
    if flag.takesValue then some ([.setTo flag.tag (c :: s)], none)
    else
      match findFlag? flags ['-', c] with
      | none => none
      | some next =>
        (readJoined? flags next s).map fun (items, waiting) =>
          (.set flag.tag :: items, waiting)

/-- What an option means with what is attached to it, and the option if it still needs a value;
none when the attached text has no place.
-/
def readOption? (flags : List (Flag α)) (flag : Flag α) (name : Text)
    : Option Text → Option (List (Item α) × Option (Flag α))
  | none => readJoined? flags flag []
  | some attached =>
    if flag.takesValue then some ([.setTo flag.tag attached], none)
    else if Text.startsWith name "--" || attached.isEmpty then none
    else readJoined? flags flag attached

/-- What arguments mean, the option that still needs a value given; none when a value is missing
or has no place.
-/
def readItems? (flags : List (Flag α)) (waiting : Option (Flag α))
    : List (Argument α) → Option (List (Item α))
  | [] => if waiting.isSome then none else some []
  | first :: rest =>
    match waiting, first with
    | some flag, .operand s => (readItems? flags none rest).map (.setTo flag.tag s :: ·)
    | some _, _ => none
    | none, .operand s => (readItems? flags none rest).map (.operand s :: ·)
    | none, .separator => readItems? flags none rest
    | none, .unknown => (readItems? flags none rest).map (.unknown :: ·)
    | none, .option flag name attached =>
      match readOption? flags flag name attached with
      | none => none
      | some (items, waiting) => (readItems? flags waiting rest).map (items ++ ·)

/-- The values that an option was given. -/
def valuesOf [DecidableEq α] (tag : α) (items : List (Item α)) : List Text :=
  items.filterMap fun
    | .setTo t value => if t = tag then some value else none
    | _ => none

/-- An option without a value was given. -/
def isSet [DecidableEq α] (tag : α) (items : List (Item α)) : Bool :=
  items.any fun
    | .set t => t = tag
    | _ => false

/-- The operands. -/
def operands (items : List (Item α)) : List Text :=
  items.filterMap fun
    | .operand s => some s
    | _ => none

/-- There is an unknown option. -/
def hasUnknown (items : List (Item α)) : Bool :=
  items.any fun
    | .unknown => true
    | _ => false

end SvgKit.CommandLine
