import SvgKit.Json.Basic

/-! Reading typed values from JSON with all faults collected, in the order of the fields. -/

namespace SvgKit

/-- A step on the way to a value: a member of an object or an item of an array. -/
inductive PathStep where
  | member (name : Text)
  | item (index : Nat)
  deriving Repr, DecidableEq

/-- What is wrong with a value. -/
inductive FaultKind where
  | missing
  | notString
  | notBool
  | unreadableBool
  | notArray
  | tooShort
  | notObject
  | rejected (message : Text)
  deriving Repr, DecidableEq

/-- The name under which a fault is reported. -/
def FaultKind.name : FaultKind → Text
  | .missing => "missing"
  | .notString => "string_type"
  | .notBool => "bool_type"
  | .unreadableBool => "bool_parsing"
  | .notArray => "list_type"
  | .tooShort => "too_short"
  | .notObject => "model_attributes_type"
  | .rejected _ => "value_error"

/-- A fault and where it is. -/
structure Fault where
  kind : FaultKind
  path : List PathStep
  deriving Repr, DecidableEq

/-- The message of a value that a rule rejects. -/
def Fault.message? (f : Fault) : Option Text :=
  match f.kind with
  | .rejected message => some ("Value error, " ++ message)
  | _ => none

/-- A step of a path as it is shown. -/
def PathStep.toJson : PathStep → Json
  | .member name => .string name
  | .item index => .int index

/-- A fault as it is shown. -/
def Fault.toJson (f : Fault) : Json :=
  let members : List (Text × Json) :=
    [("type", .string f.kind.name), ("loc", .array (f.path.map PathStep.toJson))]
  let message : List (Text × Json) :=
    f.message?.toList.map fun message => ("msg", .string message)
  .object (members ++ message)

/-- A value, or every fault that was found. -/
inductive Validation (α : Type) where
  | valid (value : α)
  | faulty (faults : List Fault)

namespace Validation

variable {α β : Type}

/-- Applies a function to a valid value. -/
def map (f : α → β) : Validation α → Validation β
  | .valid value => .valid (f value)
  | .faulty faults => .faulty faults

/-- Applies a valid function to a valid value; faults of both add up. -/
def apply : Validation (α → β) → Validation α → Validation β
  | .valid f, value => value.map f
  | .faulty faults, .valid _ => .faulty faults
  | .faulty faults, .faulty more => .faulty (faults ++ more)

instance : Applicative Validation where
  pure := .valid
  seq f value := f.apply (value ())

/-- The value, if it is valid. -/
def toExcept : Validation α → Except (List Fault) α
  | .valid value => .ok value
  | .faulty faults => .error faults

/-- Puts a step in front of the path of every fault. -/
def under (step : PathStep) : Validation α → Validation α
  | .valid value => .valid value
  | .faulty faults => .faulty (faults.map fun f => { f with path := step :: f.path })

/-- A single fault at the value itself. -/
def fail (kind : FaultKind) : Validation α := .faulty [⟨kind, []⟩]

end Validation

namespace Json

variable {α : Type}

/-- Reads a string. -/
def readString : Json → Validation Text
  | .string s => .valid s
  | _ => .fail .notString

/-- The words that stand for truth values. -/
def boolWords : List (Text × Bool) :=
  [("0", false), ("off", false), ("f", false), ("false", false), ("n", false), ("no", false),
    ("1", true), ("on", true), ("t", true), ("true", true), ("y", true), ("yes", true)]

/-- Reads a truth value: also the numbers zero and one, and words for it in any case. A number
with a fraction or beyond 64 bits is not taken for one at all.
-/
def readBool : Json → Validation Bool
  | .bool b => .valid b
  | .number mantissa places =>
    let unit := Int.pow 10 places
    let n := mantissa / unit
    if n * unit ≠ mantissa || n < -Int.pow 2 63 || Int.pow 2 63 ≤ n then .fail .notBool
    else if n = 0 then .valid false
    else if n = 1 then .valid true
    else .fail .unreadableBool
  | .string s =>
    match boolWords.lookup (s.map Char.toLower) with
    | some b => .valid b
    | none => .fail .unreadableBool
  | _ => .fail .notBool

/-- Reads a value that may be null. -/
def readOptional (read : Json → Validation α) : Json → Validation (Option α)
  | .null => .valid none
  | value => (read value).map some

/-- Reads an array item by item. -/
def readArray (read : Json → Validation α) : Json → Validation (List α)
  | .array items => go 0 items
  | _ => .fail .notArray
where
  go (index : Nat) : List Json → Validation (List α)
    | [] => .valid []
    | item :: items =>
      (((read item).under (.item index)).map List.cons).apply (go (index + 1) items)

/-- Reads a member that must be there. -/
def required (name : Text) (read : Json → Validation α) (value : Json) : Validation α :=
  (match value.member? name with
    | some member => read member
    | none => .fail .missing).under (.member name)

/-- Reads a member that may be absent. -/
def withDefault (name : Text) (default : α) (read : Json → Validation α) (value : Json)
    : Validation α :=
  (match value.member? name with
    | some member => read member
    | none => .valid default).under (.member name)

/-- Reads an object. -/
def readObject (read : Json → Validation α) : Json → Validation α
  | .object members => read (.object members)
  | _ => .fail .notObject

end Json

end SvgKit
