import SvgKit.Text.Quoted

/-! JSON values and the two ways in which they are written: compact ASCII with sorted keys,
and indented with characters beyond ASCII as they are.
-/

namespace SvgKit

/-- A JSON value. A number is `mantissa / 10 ^ places`; whole numbers have no places. -/
inductive Json where
  | null
  | bool (b : Bool)
  | number (mantissa : Int) (places : Nat)
  | string (s : Text)
  | array (items : List Json)
  | object (members : List (Text × Json))
  deriving Inhabited

namespace Json

/-- A whole number. -/
def int (n : Int) : Json := .number n 0

/-- The value of a member of an object. -/
def member? (name : Text) : Json → Option Json
  | .object members => members.lookup name
  | _ => none

-----------------------------------------------------------------------------------------
-- Strings
-----------------------------------------------------------------------------------------

/-- The spelling of a character that has an escape of its own. -/
def shortEscape? (c : Char) : Option Text :=
  if c = '"' then some ['\\', '"']
  else if c = '\\' then some ['\\', '\\']
  else if c = '\n' then some ['\\', 'n']
  else if c = '\r' then some ['\\', 'r']
  else if c = '\t' then some ['\\', 't']
  else if c = '\u0008' then some ['\\', 'b']
  else if c = '\u000C' then some ['\\', 'f']
  else none

/-- A UTF-16 unit as an escape. -/
def unitEscape (unit : Nat) : Text := '\\' :: 'u' :: Text.hex 4 unit

/-- A character by its UTF-16 units. -/
def unitsEscape (c : Char) : Text :=
  if c.toNat < 0x10000 then unitEscape c.toNat
  else
    let offset := c.toNat - 0x10000
    unitEscape (0xD800 + offset / 0x400) ++ unitEscape (0xDC00 + offset % 0x400)

/-- A character of a string that is written in ASCII without DELETE. -/
def asciiChar (c : Char) : Text :=
  match shortEscape? c with
  | some escape => escape
  | none => if 0x20 ≤ c.toNat && c.toNat < 0x7F then [c] else unitsEscape c

/-- A string literal in ASCII. -/
def asciiString (s : Text) : Text := '"' :: s.flatMap asciiChar ++ ['"']

/-- A character of a string that is written in full Unicode. -/
def plainChar (c : Char) : Text :=
  match shortEscape? c with
  | some escape => escape
  | none => if 0x20 ≤ c.toNat then [c] else unitsEscape c

/-- A string literal in full Unicode. -/
def plainString (s : Text) : Text := '"' :: s.flatMap plainChar ++ ['"']

-----------------------------------------------------------------------------------------
-- Values
-----------------------------------------------------------------------------------------

/-- An integer in decimal digits. -/
def intText (n : Int) : Text :=
  if n < 0 then '-' :: Text.ofNat n.natAbs else Text.ofNat n.natAbs

/-- A number in positional form. -/
def numberText (mantissa : Int) (places : Nat) : Text :=
  if places = 0 then intText mantissa
  else
    let digits := Text.ofNat mantissa.natAbs
    let padded := List.replicate (places + 1 - digits.length) '0' ++ digits
    let cut := padded.length - places
    (if mantissa < 0 then ['-'] else []) ++ padded.take cut ++ ['.'] ++ padded.drop cut

/-- The members in the order of their names' code points; of equal names the first comes
first.
-/
def sortMembers {α : Type} (members : List (Text × α)) : List (Text × α) :=
  members.mergeSort fun a b => !List.lex b.1 a.1 fun x y => x.val < y.val

mutual

/-- The compact form: ASCII, no spaces, members sorted by name. -/
def compact : Json → Text
  | .null => "null"
  | .bool true => "true"
  | .bool false => "false"
  | .number mantissa places => numberText mantissa places
  | .string s => asciiString s
  | .array items => '[' :: Text.join [','] (compactItems items) ++ [']']
  | .object members =>
    let parts := (sortMembers (compactMembers members)).map fun m =>
      asciiString m.1 ++ (':' :: m.2)
    '{' :: Text.join [','] parts ++ ['}']

/-- The compact forms of items. -/
def compactItems : List Json → List Text
  | [] => []
  | item :: items => compact item :: compactItems items

/-- The names of members with the compact forms of their values. -/
def compactMembers : List (Text × Json) → List (Text × Text)
  | [] => []
  | (name, value) :: members => (name, compact value) :: compactMembers members

end

/-- A line break and the indentation of a depth, two spaces a level. -/
def newLine (depth : Nat) : Text := '\n' :: List.replicate (2 * depth) ' '

/-- Parts between brackets, each on a line of its own one level deeper. -/
def block (depth : Nat) (opening closing : Char) (parts : List Text) : Text :=
  if parts.isEmpty then [opening, closing]
  else
    opening :: newLine (depth + 1) ++ Text.join (',' :: newLine (depth + 1)) parts
      ++ newLine depth ++ [closing]

mutual

/-- The indented form inside a value of the given depth. -/
def indentedAt (depth : Nat) : Json → Text
  | .null => "null"
  | .bool true => "true"
  | .bool false => "false"
  | .number mantissa places => numberText mantissa places
  | .string s => plainString s
  | .array items => block depth '[' ']' (indentedItems (depth + 1) items)
  | .object members => block depth '{' '}' (indentedMembers (depth + 1) members)

/-- The indented forms of items. -/
def indentedItems (depth : Nat) : List Json → List Text
  | [] => []
  | item :: items => indentedAt depth item :: indentedItems depth items

/-- The indented forms of members with their names. -/
def indentedMembers (depth : Nat) : List (Text × Json) → List Text
  | [] => []
  | (name, value) :: members =>
    (plainString name ++ ": " ++ indentedAt depth value) :: indentedMembers depth members

end

/-- The indented form, two spaces a level. -/
def indented (value : Json) : Text := indentedAt 0 value

mutual

/-- The value without the members that are null, at every depth. -/
def withoutNulls : Json → Json
  | .array items => .array (itemsWithoutNulls items)
  | .object members => .object (membersWithoutNulls members)
  | value => value

/-- The items without the members that are null. -/
def itemsWithoutNulls : List Json → List Json
  | [] => []
  | item :: items => withoutNulls item :: itemsWithoutNulls items

/-- The members that are not null, and neither are theirs. -/
def membersWithoutNulls : List (Text × Json) → List (Text × Json)
  | [] => []
  | (name, value) :: members =>
    match value with
    | .null => membersWithoutNulls members
    | value => (name, withoutNulls value) :: membersWithoutNulls members

end

end Json

end SvgKit
