import SvgKit.Failure
import SvgKit.Number.Binary64
import SvgKit.Text.Digit
import SvgKit.Text.Scanner

/-! Decimal numerals in text, with digits of any script, and their shortening to a number of
decimal places.
-/

namespace SvgKit

/-- A numeral: its sign, its digits before and after the point, and its power of ten. -/
structure Numeral where
  negative : Bool
  whole : Text
  fraction : Text
  exponent : Int
  deriving Repr, DecidableEq

namespace Numeral

/-- The number that decimal digits write. -/
def digitsValue (digits : Text) : Nat :=
  digits.foldl (fun n c => 10 * n + (Text.digitValue? c).getD 0) 0

/-- The number nearest to a numeral. -/
def value (n : Numeral) : Binary64 :=
  .ofDecimal n.negative (digitsValue (n.whole ++ n.fraction)) (n.exponent - n.fraction.length)

-----------------------------------------------------------------------------------------
-- Reading
-----------------------------------------------------------------------------------------

/-- The sign at the head of a text, and the rest. -/
def readSign : Text → Bool × Text
  | '-' :: s => (true, s)
  | '+' :: s => (false, s)
  | s => (false, s)

/-- The digits at the head of a text, and the rest. -/
def readDigits (s : Text) : Text × Text :=
  (s.takeWhile Text.isDigit, s.dropWhile Text.isDigit)

/-- Digits with a point among or after them: digits must follow the point when none stand
before it.
-/
def readMantissa? (s : Text) : Option ((Text × Text) × Text) :=
  let (whole, rest) := readDigits s
  match rest with
  | '.' :: after =>
    let (fraction, left) := readDigits after
    if whole.isEmpty && fraction.isEmpty then none else some ((whole, fraction), left)
  | _ => if whole.isEmpty then none else some ((whole, []), rest)

/-- The power of ten at the head of a text, zero when there is none, and the rest. -/
def readExponent (s : Text) : Int × Text :=
  match s with
  | [] => (0, s)
  | c :: after =>
    if c = 'e' || c = 'E' then
      let (negative, after) := readSign after
      let (digits, left) := readDigits after
      if digits.isEmpty then (0, s)
      else
        let n : Int := digitsValue digits
        (if negative then -n else n, left)
    else (0, s)

/-- The longest numeral at the head of a text. -/
def read? (s : Text) : Option (Numeral × Text) :=
  let (negative, unsigned) := readSign s
  match readMantissa? unsigned with
  | none => none
  | some ((whole, fraction), rest) =>
    let (exponent, left) := readExponent rest
    some (⟨negative, whole, fraction, exponent⟩, left)

-----------------------------------------------------------------------------------------
-- What is left is shorter
-----------------------------------------------------------------------------------------

/-- Dropping the sign leaves an end of the text. -/
theorem readSign_suffix (s : Text) : (readSign s).2 <:+ s := by
  unfold readSign
  split <;> simp

/-- Dropping the digits leaves an end of the text. -/
theorem readDigits_suffix (s : Text) : (readDigits s).2 <:+ s := List.dropWhile_suffix _

/-- Reading a mantissa leaves an end of the text. -/
theorem readMantissa?_suffix {s rest : Text} {m : Text × Text}
    (h : readMantissa? s = some (m, rest))
    : rest <:+ s := by
  have hs := readDigits_suffix s
  unfold readMantissa? at h
  dsimp only at h
  split at h
  · next after ha =>
    split at h
    · cases h
    · cases h
      rw [ha] at hs
      exact (readDigits_suffix after).trans ((List.suffix_cons _ _).trans hs)
  · split at h
    · cases h
    · cases h; exact hs

/-- Reading a power of ten leaves an end of the text. -/
theorem readExponent_suffix (s : Text) : (readExponent s).2 <:+ s := by
  unfold readExponent
  split
  · simp
  · next c after =>
    split
    · dsimp only
      split
      · simp
      · exact (readDigits_suffix _).trans ((readSign_suffix after).trans (List.suffix_cons _ _))
    · simp

/-- Reading a numeral leaves an end of the text. -/
theorem read?_suffix {s rest : Text} {n : Numeral} (h : read? s = some (n, rest))
    : rest <:+ s := by
  unfold read? at h
  dsimp only at h
  split at h
  · cases h
  · next hm =>
    cases h
    exact (readExponent_suffix _).trans ((readMantissa?_suffix hm).trans (readSign_suffix s))

/-- Dropping the digits leaves no more than there was. -/
theorem length_readDigits (s : Text) : (readDigits s).2.length ≤ s.length :=
  (readDigits_suffix s).length_le

/-- Dropping a digit leaves less than there was. -/
theorem length_readDigits_lt {s : Text} (h : (readDigits s).1 ≠ [])
    : (readDigits s).2.length < s.length := by
  have := congrArg List.length (List.takeWhile_append_dropWhile (p := Text.isDigit) (l := s))
  have := List.length_pos_iff.mpr h
  simp only [readDigits, List.length_append] at *
  omega

/-- Reading a mantissa leaves less than there was. -/
theorem length_readMantissa? {s rest : Text} {m : Text × Text}
    (h : readMantissa? s = some (m, rest))
    : rest.length < s.length := by
  have hle := length_readDigits s
  unfold readMantissa? at h
  dsimp only at h
  split at h
  · next after hs =>
    split at h
    · cases h
    · cases h
      have := length_readDigits after
      rw [hs] at hle
      simp only [List.length_cons] at hle
      omega
  · split at h
    · cases h
    · next hne =>
      cases h
      exact length_readDigits_lt (by simpa using hne)

/-- Reading a numeral leaves less than there was. -/
theorem length_read? {s rest : Text} {n : Numeral} (h : read? s = some (n, rest))
    : rest.length < s.length := by
  unfold read? at h
  dsimp only at h
  split at h
  · cases h
  · next hm =>
    cases h
    have := (readSign_suffix s).length_le
    have := length_readMantissa? hm
    have := (readExponent_suffix ‹Text›).length_le
    omega

/-- Finds the numerals in a text. -/
def scanner : Scanner Numeral where
  read := read?
  shorter := length_read?
  suffix := read?_suffix

-----------------------------------------------------------------------------------------
-- Numbers written by hand
-----------------------------------------------------------------------------------------

/-- A blank that may stand around a number. -/
def isMargin (c : Char) : Bool :=
  if c.val < 128 then c.val == 32 || (9 ≤ c.val && c.val ≤ 13) else Text.isBlank c

/-- The text without the underscores between digits; none when another underscore is there. -/
def dropUnderscores? (afterDigit : Bool) : Text → Option Text
  | [] => some []
  | '_' :: s =>
    match s with
    | [] => none
    | d :: _ => if afterDigit && Text.isDigit d then dropUnderscores? false s else none
  | c :: s => (dropUnderscores? (Text.isDigit c) s).map (c :: ·)

/-- The number that a whole text writes: a numeral, an infinity or no number, in margins. -/
def parse? (s : Text) : Option Binary64 :=
  let trimmed := Text.dropEndWhile isMargin (s.dropWhile isMargin)
  let (negative, unsigned) := readSign trimmed
  let name := unsigned.map Char.toLower
  if name = ("inf" : Text) || name = ("infinity" : Text) then some (.infinite negative)
  else if name = ("nan" : Text) then some .nan
  else
    match (dropUnderscores? false trimmed).bind read? with
    | some (n, []) => some n.value
    | _ => none

-----------------------------------------------------------------------------------------
-- Shortening
-----------------------------------------------------------------------------------------

/-- A decimal without the zeros at the end of its fraction, and a zero without a sign. -/
def dropZeros (s : Text) : Text :=
  let short :=
    if s.contains '.' then
      Text.dropEndWhile (· = '.') (Text.dropEndWhile (· = '0') s)
    else s
  if short = ['-', '0'] || short.isEmpty then ['0'] else short

/-- The shortest text of a number rounded to decimal places. -/
def shorten (precision : Int) (x : Binary64) : Except Failure Text :=
  match x.roundTo? precision with
  | none => .error .roundedTooLarge
  | some rounded =>
    if precision < 0 then .error .negativePrecision
    else .ok (dropZeros (rounded.fixed precision.toNat))

/-- The shortest text of the number that a token writes, rounded to decimal places. -/
def format (precision : Int) (token : Text) : Except Failure Text :=
  match parse? token with
  | none => .error (.notANumber token)
  | some x => shorten precision x

/-- The text of a piece once its numeral is shortened. -/
def shortenPiece (precision : Int) : Piece Numeral → Except Failure Text
  | .plain c => .ok [c]
  | .found n => shorten precision n.value

/-- Shortens every numeral in a text. -/
def shortenAll (precision : Int) (s : Text) : Except Failure Text :=
  ((scanner.pieces s).mapM (shortenPiece precision)).map List.flatten

end Numeral

end SvgKit
