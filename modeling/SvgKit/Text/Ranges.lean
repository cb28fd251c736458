import SvgKit.Text.Basic

/-! Classes of characters beyond ASCII are given as lists of code point ranges, both ends included,
and case mappings as runs of code points that move by the same distance.
-/

namespace SvgKit.Text

/-- The code point lies in one of the ranges. -/
def inRanges (ranges : List (Nat × Nat)) (n : Nat) : Bool :=
  ranges.any fun r => r.1 ≤ n && n ≤ r.2

/-- A run of code points, every `stride`-th from `first` to `last`, that a mapping moves by the
same distance.
-/
structure Shift where
  first : Nat
  last : Nat
  stride : Nat
  distance : Int
  deriving Repr, DecidableEq

/-- The run moves the code point. -/
def Shift.covers (r : Shift) (n : Nat) : Bool :=
  r.first ≤ n && n ≤ r.last && (n - r.first) % r.stride == 0

/-- The character that the first run covering `c` moves it to, or `c` itself. -/
def shift (runs : List Shift) (c : Char) : Char :=
  match runs.find? (·.covers c.toNat) with
  | some r => Char.ofNat (c.toNat + r.distance).toNat
  | none => c

end SvgKit.Text
