import SvgKit.Number.Numeral

/-! Path data and lists of numbers with as few characters as rounding needs. -/

namespace SvgKit.Minify

/-- The text is a separator of path data. -/
def isSeparator (c : Char) : Bool := Text.isBlank c || c == ','

/-- Appends a character to path data in reverse. A space is left out next to a command and in
front of a minus sign.
-/
def tightenStep (done : Text) (c : Char) : Text :=
  if c = ' ' then
    match done with
    | [] => [' ']
    | last :: _ => if last.isAlpha then done else ' ' :: done
  else if c.isAlpha || c = '-' then
    match done with
    | ' ' :: done => c :: done
    | _ => c :: done
  else c :: done

/-- The text without the spaces next to commands and in front of minus signs. -/
def tighten (s : Text) : Text := (s.foldl tightenStep []).reverse

/-- The flags of an arc may stand together with numbers, so that these cannot be told apart. -/
def hasArc (d : Text) : Bool := d.contains 'A' || d.contains 'a'

/-- Path data with rounded numbers, unless there is an arc, and as few separators as possible. -/
def compactPath (precision : Int) (d : Text) : Except Failure Text := do
  let rounded ← if hasArc d then pure d else Numeral.shortenAll precision d
  let parts := (Text.splitOnChar isSeparator rounded).filter (!·.isEmpty)
  pure (tighten (Text.join [' '] parts))

/-- A list of numbers, rounded, with single spaces. -/
def compactNumbers (precision : Int) (value : Text) : Except Failure Text :=
  (Numeral.shortenAll precision value).map Text.squeeze

end SvgKit.Minify
