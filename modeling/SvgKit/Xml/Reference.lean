import SvgKit.Xml.Name

/-! References to characters and to entities, and the values of attributes, in which they may
stand.
-/

namespace SvgKit.Xml

/-- What a reference stands for. -/
inductive Reference where
  | char (c : Char)
  | entity (name : Text)
  deriving Repr, DecidableEq

/-- The value of a digit up to `f`. -/
def hexValue (c : Char) : Nat :=
  if c.isDigit then c.toNat - '0'.toNat else c.toLower.toNat - 'a'.toNat + 10

/-- A hexadecimal digit. -/
def isHexDigit (c : Char) : Bool :=
  c.isDigit || ('a' ≤ c.toLower && c.toLower ≤ 'f')

/-- The character of a code point, if it may stand in a document. -/
def charOfCode? (n : Nat) : Option Char :=
  if n.isValidChar && isChar (Char.ofNat n) then some (Char.ofNat n) else none

/-- The character that digits of a base name, up to a semicolon, and the rest. -/
def readCode? (base : Nat) (isDigit : Char → Bool) (s : Text) : Option (Reference × Text) :=
  match s.dropWhile isDigit with
  | ';' :: rest =>
    let code := (s.takeWhile isDigit).foldl (fun n c => base * n + hexValue c) 0
    (charOfCode? code).map fun c => (.char c, rest)
  | _ => none

/-- The entities that need no declaration. -/
def predefined : List (Text × Char) :=
  [("lt", '<'), ("gt", '>'), ("amp", '&'), ("quot", '"'), ("apos", '\'')]

/-- The reference behind an ampersand, and the rest. -/
def readReference? (s : Text) : Option (Reference × Text) :=
  match s with
  | '#' :: 'x' :: s => readCode? 16 isHexDigit s
  | '#' :: s => readCode? 10 Char.isDigit s
  | s =>
    match readFullName? s with
    | some (name, ';' :: rest) =>
      match predefined.lookup name with
      | some c => some (.char c, rest)
      | none => some (.entity name, rest)
    | _ => none

/-- Reading the code of a character leaves less than there was. -/
theorem length_readCode? {base : Nat} {isDigit : Char → Bool} {s rest : Text}
    {r : Reference} (h : readCode? base isDigit s = some (r, rest))
    : rest.length < s.length := by
  have hle := (List.dropWhile_suffix (l := s) isDigit).length_le
  unfold readCode? at h
  split at h
  · next left hs =>
    rw [hs] at hle
    obtain ⟨c, _, hc⟩ := Option.map_eq_some_iff.mp h
    cases hc
    simp only [List.length_cons] at hle
    omega
  · cases h

/-- Reading a full name leaves an end of the text. -/
theorem length_readFullName? {s name rest : Text} (h : readFullName? s = some (name, rest))
    : rest.length ≤ s.length := by
  unfold readFullName? at h
  split at h
  · cases h
  · dsimp only at h
    split at h
    · cases h
      exact (List.dropWhile_suffix _).length_le
    · cases h

/-- Reading a reference leaves less than there was. -/
theorem length_readReference? {s rest : Text} {r : Reference}
    (h : readReference? s = some (r, rest))
    : rest.length < s.length := by
  unfold readReference? at h
  split at h
  · have := length_readCode? h
    simp only [List.length_cons]
    omega
  · have := length_readCode? h
    simp only [List.length_cons]
    omega
  · split at h
    · next name left hn =>
      have := length_readFullName? hn
      simp only [List.length_cons] at this
      split at h <;> · cases h; omega
    · cases h

-----------------------------------------------------------------------------------------
-- Attribute values
-----------------------------------------------------------------------------------------

/-- The value of an attribute as it is read: characters and references to entities. -/
abbrev Value := List Reference

/-- The value that a text without references to characters spells, behind what has been read
in reverse. Each white space character becomes a space, a CR LF pair only one.
-/
def readValueAfter? (done : Value) (s : Text) : Option Value :=
  match s with
  | [] => some done.reverse
  | '\r' :: '\n' :: s => readValueAfter? (.char ' ' :: done) s
  | '&' :: s =>
    match _h : readReference? s with
    | none => none
    | some (r, rest) => readValueAfter? (r :: done) rest
  | c :: s =>
    if c = '<' || !isChar c then none
    else readValueAfter? (.char (if isSpace c then ' ' else c) :: done) s
termination_by s.length
decreasing_by
  · simp only [List.length_cons]; omega
  · have := length_readReference? _h
    simp only [List.length_cons]
    omega
  · simp only [List.length_cons]; omega

/-- The value that a text spells. -/
def readValue? (s : Text) : Option Value := readValueAfter? [] s

end SvgKit.Xml
