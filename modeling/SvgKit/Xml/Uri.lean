import SvgKit.Text.Basic

/-! Recognition of URI references: the names of namespaces have to be such. -/

namespace SvgKit.Xml.Uri

/-- A character that stands for itself everywhere. -/
def isUnreserved (c : Char) : Bool :=
  c.isAlphanum || c == '-' || c == '.' || c == '_' || c == '~'

/-- A delimiter inside a component. -/
def isSubDelimiter (c : Char) : Bool := ("!$&'()*+,;=" : Text).contains c

/-- A hexadecimal digit. -/
def isHex (c : Char) : Bool :=
  c.isDigit || ('a' ≤ c && c ≤ 'f') || ('A' ≤ c && c ≤ 'F')

/-- What follows the longest head of characters of a class and of escaped bytes. -/
def dropRun (p : Char → Bool) : Text → Text
  | '%' :: x :: y :: s => if isHex x && isHex y then dropRun p s else '%' :: x :: y :: s
  | [] => []
  | c :: s => if c ≠ '%' && p c then dropRun p s else c :: s

/-- A character of a path segment, escaped bytes apart. -/
def isSegmentChar (c : Char) : Bool :=
  isUnreserved c || isSubDelimiter c || c == ':' || c == '@'

/-- A character of the name of a host, escaped bytes apart. -/
def isHostChar (c : Char) : Bool := isUnreserved c || isSubDelimiter c

/-- What follows a path: segments between slashes. -/
def dropPath (s : Text) : Text := dropRun (fun c => isSegmentChar c || c == '/') s

/-- A text without anything left, or only with a query and a fragment. -/
def endsReference (s : Text) : Bool :=
  let afterQuery :=
    match s with
    | '?' :: s => dropRun (fun c => isSegmentChar c || c == '/' || c == '?') s
    | s => s
  let inFragment (c : Char) := isSegmentChar c || ("/?[]" : Text).contains c
  match afterQuery with
  | [] => true
  | '#' :: s => (dropRun inFragment s).isEmpty
  | _ => false

/-- What follows the host at the head of a text. -/
def afterHost? (s : Text) : Option Text :=
  match s with
  | '[' :: s =>
    match s.dropWhile (· ≠ ']') with
    | ']' :: rest => some rest
    | _ => none
  | s => some (dropRun isHostChar s)

/-- What follows the authority at the head of a text. -/
def afterAuthority? (s : Text) : Option Text :=
  let afterUser :=
    match dropRun (fun c => isHostChar c || c == ':') s with
    | '@' :: rest => rest
    | _ => s
  match afterHost? afterUser with
  | some (':' :: s) =>
    let rest := s.dropWhile Char.isDigit
    if rest.length < s.length then some rest else none
  | rest => rest

/-- What stands behind the scheme or the start of a relative reference: an authority with a
path, or a path that does not begin with two slashes.
-/
def isRest (s : Text) : Bool :=
  match s with
  | '/' :: '/' :: s =>
    match afterAuthority? s with
    | some rest =>
      endsReference (if Text.startsWith rest ['/'] then dropPath rest else rest)
    | none => false
  | s => endsReference (dropPath s)

/-- What follows the scheme and its colon at the head of a text. -/
def afterScheme? (s : Text) : Option Text :=
  match s with
  | [] => none
  | c :: _ =>
    let rest :=
      s.dropWhile fun c => c.isAlphanum || c == '+' || c == '-' || c == '.'
    match rest with
    | ':' :: rest => if c.isAlpha then some rest else none
    | _ => none

/-- The first segment of the text holds no colon. -/
def firstSegmentPlain (s : Text) : Bool :=
  !(s.takeWhile fun c => isSegmentChar c || c == '%').contains ':'

/-- A URI, or a reference relative to one. -/
def isReference (s : Text) : Bool :=
  (match afterScheme? s with
    | some rest => isRest rest
    | none => false)
  || (firstSegmentPlain s && isRest s)

end SvgKit.Xml.Uri
