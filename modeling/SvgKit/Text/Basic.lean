/-! Document text is a list of characters. This module holds the operations on it that the
rest of the library is written in: blanks, trimming, literal heads, splitting and joining.
-/

namespace SvgKit

/-- The text of a document, of an attribute or of generated source. -/
abbrev Text := List Char

/-- The characters of a string. -/
@[irreducible]
def Text.ofString (s : String) : Text := s.toList

/-- A string literal stands for its characters. -/
instance : Coe String Text := ⟨Text.ofString⟩

namespace Text

/-- A string has as many characters as its text. -/
theorem length_ofString (s : String) : (ofString s).length = s.length := by
  rw [ofString, String.length_toList]

-----------------------------------------------------------------------------------------
-- Blanks
-----------------------------------------------------------------------------------------

/-- The blank characters beyond ASCII: every space, line and paragraph separator of Unicode
and the control NEXT LINE. U+200B and U+FEFF are not among them.
-/
def wideBlanks : List Char :=
  ['\u0085', '\u00A0', '\u1680', '\u2000', '\u2001', '\u2002', '\u2003', '\u2004', '\u2005',
    '\u2006', '\u2007', '\u2008', '\u2009', '\u200A', '\u2028', '\u2029', '\u202F', '\u205F',
    '\u3000']

/-- A blank character: the ASCII blanks and separators, and `wideBlanks`. -/
def isBlank (c : Char) : Bool :=
  if c.val < 128 then
    c.val == 32 || (9 ≤ c.val && c.val ≤ 13) || (28 ≤ c.val && c.val ≤ 31)
  else wideBlanks.contains c

/-- A text without a visible character. -/
def allBlank (s : Text) : Bool := s.all isBlank

/-- The text from its first character that is not blank. -/
def dropBlank (s : Text) : Text := s.dropWhile isBlank

/-- The text without the blanks at both ends. -/
def trim (s : Text) : Text := (dropBlank (dropBlank s).reverse).reverse

/-- The text without the characters of a class at its end. -/
def dropEndWhile (p : Char → Bool) (s : Text) : Text := (s.reverse.dropWhile p).reverse

-----------------------------------------------------------------------------------------
-- Literal heads
-----------------------------------------------------------------------------------------

/-- What follows a literal at the head of a text. -/
def dropLiteral? : Text → Text → Option Text
  | [], s => some s
  | _ :: _, [] => none
  | p :: ps, c :: s => if p = c then dropLiteral? ps s else none

/-- The text begins with the literal. -/
def startsWith (s literal : Text) : Bool := (dropLiteral? literal s).isSome

/-- Splits at the first occurrence of a literal, which belongs to neither part. -/
def splitAtLiteral? (literal s : Text) : Option (Text × Text) :=
  go [] s
where
  go (before : Text) (s : Text) : Option (Text × Text) :=
    match dropLiteral? literal s with
    | some rest => some (before.reverse, rest)
    | none =>
      match s with
      | [] => none
      | c :: s => go (c :: before) s

/-- The literal occurs in the text. -/
def hasLiteral (literal s : Text) : Bool := (splitAtLiteral? literal s).isSome

/-- Some end of the text that is not empty satisfies the condition. -/
def anyEnd (p : Text → Bool) : Text → Bool
  | [] => false
  | c :: s => p (c :: s) || anyEnd p s

/-- Replaces every occurrence of one character by a text. -/
def replaceChar (c : Char) (replacement s : Text) : Text :=
  s.flatMap fun x => if x = c then replacement else [x]

/-- A literal is dropped exactly from the texts that begin with it, by induction over the
literal.
-/
theorem dropLiteral?_eq_some_iff {literal s rest : Text}
    : dropLiteral? literal s = some rest ↔ s = literal ++ rest := by
  induction literal generalizing s with
  | nil => simp [dropLiteral?, eq_comm]
  | cons p ps ih =>
    cases s with
    | nil => simp [dropLiteral?]
    | cons c s =>
      by_cases h : p = c
      · simp [dropLiteral?, h, ih]
      · simp [dropLiteral?, h, Ne.symm h]

/-- What stands before the literal, the literal and what follows make up the text. -/
theorem eq_of_splitAtLiteral?_go {literal s done before rest : Text}
    (h : splitAtLiteral?.go literal done s = some (before, rest))
    : done.reverse ++ s = before ++ literal ++ rest := by
  induction s generalizing done with
  | nil =>
    unfold splitAtLiteral?.go at h
    split at h
    · next hd => cases h; rw [dropLiteral?_eq_some_iff.mp hd]; simp
    · cases h
  | cons c s ih =>
    unfold splitAtLiteral?.go at h
    split at h
    · next hd => cases h; rw [dropLiteral?_eq_some_iff.mp hd]; simp
    · rw [← ih h]; simp

/-- A split text is put together again by the literal. -/
theorem eq_of_splitAtLiteral? {literal s before rest : Text}
    (h : splitAtLiteral? literal s = some (before, rest))
    : s = before ++ literal ++ rest := by
  simpa using eq_of_splitAtLiteral?_go h

/-- What follows the literal is an end of the text. -/
theorem splitAtLiteral?_suffix {literal s before rest : Text}
    (h : splitAtLiteral? literal s = some (before, rest))
    : rest <:+ s :=
  ⟨before ++ literal, (eq_of_splitAtLiteral? h).symm⟩

/-- The longest head whose characters all satisfy a condition on the character and on what
follows it, and the rest.
-/
def spanAhead (p : Char → Text → Bool) (s : Text) : Text × Text :=
  go [] s
where
  go (done : Text) : Text → Text × Text
    | [] => (done.reverse, [])
    | c :: s => if p c s then go (c :: done) s else (done.reverse, c :: s)

/-- The head and the rest make up the text. -/
theorem spanAhead_append (p : Char → Text → Bool) (s : Text)
    : (spanAhead p s).1 ++ (spanAhead p s).2 = s := by
  suffices ∀ done, (spanAhead.go p done s).1 ++ (spanAhead.go p done s).2 = done.reverse ++ s
    from this []
  induction s with
  | nil => simp [spanAhead.go]
  | cons c s ih =>
    intro done
    unfold spanAhead.go
    split
    · rw [ih]; simp
    · rfl

-----------------------------------------------------------------------------------------
-- Splitting and joining
-----------------------------------------------------------------------------------------

/-- The pieces between the characters of a class; there is one more piece than there are
such characters.
-/
def splitOnChar (p : Char → Bool) (s : Text) : List Text :=
  let split := s.foldr step ([], [])
  split.1 :: split.2
where
  step (c : Char) (done : Text × List Text) : Text × List Text :=
    if p c then ([], done.1 :: done.2) else (c :: done.1, done.2)

/-- The words of a text: its longest runs without a blank. -/
def words (s : Text) : List Text := (splitOnChar isBlank s).filter (!·.isEmpty)

/-- Puts a separator between the parts. -/
def join (separator : Text) (parts : List Text) : Text := separator.intercalate parts

/-- The characters that end a line. -/
def lineEnds : List Char :=
  ['\n', '\r', '\u000B', '\u000C', '\u001C', '\u001D', '\u001E', '\u0085', '\u2028', '\u2029']

/-- The lines of a text, without their ends. CR and LF end a line each, so that there is an
empty line between the two of a pair.
-/
def lines (s : Text) : List Text := splitOnChar lineEnds.contains s

/-- The text with a line feed for each line end: CR, LF, or the two as a pair. -/
def unifyLines (s : Text) : Text :=
  (s.foldl step ([], false)).1.reverse
where
  step (done : Text × Bool) (c : Char) : Text × Bool :=
    if c = '\r' then ('\n' :: done.1, true)
    else if c = '\n' && done.2 then (done.1, false)
    else (c :: done.1, false)

/-- The words separated by single spaces. -/
def squeeze (s : Text) : Text := join [' '] (words s)

/-- The decimal digits of a number. -/
def ofNat (n : Nat) : Text := Nat.toDigits 10 n

end Text

end SvgKit
