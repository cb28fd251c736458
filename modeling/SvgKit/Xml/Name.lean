import SvgKit.Text.Ranges

/-! The characters of XML documents and the names in them. -/

namespace SvgKit.Xml

/-- White space of XML. -/
def isSpace (c : Char) : Bool := c == ' ' || c == '\t' || c == '\n' || c == '\r'

/-- A character that may stand in a document. -/
def isChar (c : Char) : Bool :=
  (c.val ≥ 0x20 && c.val != 0xFFFE && c.val != 0xFFFF) || c == '\t' || c == '\n' || c == '\r'

/-- The characters beyond ASCII that begin names. -/
def nameStartRanges : List (Nat × Nat) :=
  [(0xC0, 0xD6), (0xD8, 0xF6), (0xF8, 0x2FF), (0x370, 0x37D), (0x37F, 0x1FFF),
    (0x200C, 0x200D), (0x2070, 0x218F), (0x2C00, 0x2FEF), (0x3001, 0xD7FF),
    (0xF900, 0xFDCF), (0xFDF0, 0xFFFD), (0x10000, 0xEFFFF)]

/-- The characters beyond ASCII that stand in names and begin none. -/
def nameRestRanges : List (Nat × Nat) := [(0xB7, 0xB7), (0x300, 0x36F), (0x203F, 0x2040)]

/-- A character that begins a name without colons. -/
def isNameStart (c : Char) : Bool :=
  c.isAlpha || c == '_' || (c.val ≥ 0x80 && Text.inRanges nameStartRanges c.toNat)

/-- A character of a name without colons. -/
def isNameChar (c : Char) : Bool :=
  isNameStart c || c.isDigit || c == '-' || c == '.'
    || (c.val ≥ 0x80 && Text.inRanges nameRestRanges c.toNat)

/-- A name as it is spelled: what stands before the colon, if there is one, and the rest. -/
structure Spelling where
  space : Option Text
  base : Text
  deriving Repr, DecidableEq

/-- The text of a spelled name. -/
def Spelling.text (n : Spelling) : Text :=
  match n.space with
  | none => n.base
  | some space => space ++ ':' :: n.base

/-- The longest name without colons at the head of a text, and the rest. -/
def readName? (s : Text) : Option (Text × Text) :=
  match s with
  | [] => none
  | c :: _ =>
    if isNameStart c then some (s.takeWhile isNameChar, s.dropWhile isNameChar) else none

/-- The longest name at the head of a text, colons included, and the rest. -/
def readFullName? (s : Text) : Option (Text × Text) :=
  match s with
  | [] => none
  | c :: _ =>
    let inName (c : Char) := isNameChar c || c == ':'
    if isNameStart c || c == ':' then some (s.takeWhile inName, s.dropWhile inName) else none

/-- The name with at most one colon at the head of a text, and the rest. A further colon, or
one that nothing follows, makes it none.
-/
def readSpelling? (s : Text) : Option (Spelling × Text) :=
  match readName? s with
  | none => none
  | some (first, ':' :: rest) =>
    match readName? rest with
    | none => none
    | some (_, ':' :: _) => none
    | some (second, rest) => some (⟨some first, second⟩, rest)
  | some (first, rest) => some (⟨none, first⟩, rest)

/-- Reading a name leaves less than there was. -/
theorem length_readName? {s name rest : Text} (h : readName? s = some (name, rest))
    : rest.length < s.length := by
  unfold readName? at h
  split at h
  · cases h
  · next c s =>
    split at h
    · next hc =>
      cases h
      have := (List.dropWhile_suffix (l := s) isNameChar).length_le
      rw [List.dropWhile_cons_of_pos (by simp [isNameChar, hc])]
      simp
      omega
    · cases h

/-- Reading a spelled name leaves less than there was. -/
theorem length_readSpelling? {s rest : Text} {name : Spelling}
    (h : readSpelling? s = some (name, rest))
    : rest.length < s.length := by
  unfold readSpelling? at h
  split at h
  · cases h
  · next first after hfirst =>
    have h1 := length_readName? hfirst
    split at h
    · cases h
    · cases h
    · next second left hsecond =>
      cases h
      have h2 := length_readName? hsecond
      simp only [List.length_cons] at h1
      omega
  · next first after _ hfirst =>
    cases h
    exact length_readName? hfirst

end SvgKit.Xml
