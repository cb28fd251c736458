import SvgKit.Text.Basic

/-! Binary floating point numbers of 64 bits as exact dyadic fractions: rounding a ratio to
the nearest one, rounding one to decimal places, and its text with fixed places. Ties go to
the even neighbour everywhere.
-/

namespace SvgKit

/-- The integer nearest to `num / den`, of two the even one. -/
def roundRatio (num den : Nat) : Nat :=
  let q := num / den
  let r := num % den
  if 2 * r < den then q else if den < 2 * r then q + 1 else q + q % 2

/-- A binary floating point number; a finite one is `mantissa * 2 ^ exponent` with a sign. -/
inductive Binary64 where
  | finite (negative : Bool) (mantissa : Nat) (exponent : Int)
  | infinite (negative : Bool)
  | nan
  deriving Repr, DecidableEq

namespace Binary64

/-- `n * 2 ^ e * 10 ^ d` as a ratio of natural numbers. -/
def ratio (n : Nat) (e d : Int) : Nat × Nat :=
  (n * Nat.pow 2 e.toNat * Nat.pow 10 d.toNat,
    Nat.pow 2 (-e).toNat * Nat.pow 10 (-d).toNat)

/-- The greatest power of two not above a positive ratio. -/
def log2Ratio (num den : Nat) : Int :=
  let k : Int := (Nat.log2 num : Int) - Nat.log2 den
  if num * Nat.pow 2 (-k).toNat < den * Nat.pow 2 k.toNat then k - 1 else k

/-- The number of 53 significant bits, down to the unit `2 ^ -1074`, nearest to a ratio. -/
def ofRatio (negative : Bool) (num den : Nat) : Binary64 :=
  if num = 0 then .finite negative 0 0
  else
    let e := max (log2Ratio num den - 52) (-1074)
    let m := roundRatio (num * Nat.pow 2 (-e).toNat) (den * Nat.pow 2 e.toNat)
    if Nat.pow 2 1024 ≤ m * Nat.pow 2 e.toNat then .infinite negative
    else .finite negative m e

/-- The number nearest to `significand * 10 ^ scale`. Scales beyond every finite number are
settled without computing the power.
-/
def ofDecimal (negative : Bool) (significand : Nat) (scale : Int) : Binary64 :=
  if significand = 0 then .finite negative 0 0
  else if 310 < scale then .infinite negative
  else if scale + Nat.log2 significand + 1 < -330 then .finite negative 0 0
  else
    let r := ratio significand 0 scale
    ofRatio negative r.1 r.2

/-- The number nearest to the decimal of `places` places nearest to a number; none when that
is beyond every finite number. A negative count of places stands for powers of ten.
-/
def roundTo? (places : Int) : Binary64 → Option Binary64
  | .finite negative m e =>
    if 323 < places then some (.finite negative m e)
    else if places < -308 then some (.finite negative 0 0)
    else
      let r := ratio m e places
      match ofDecimal negative (roundRatio r.1 r.2) (-places) with
      | .infinite _ => none
      | x => some x
  | x => some x

/-- The number nearest to a quotient of an integer by a natural number. -/
def ofQuotient (num : Int) (den : Nat) : Binary64 := ofRatio (num < 0) num.natAbs den

/-- The number nearest to a natural multiple of a number. -/
def times (n : Nat) : Binary64 → Binary64
  | .finite negative m e =>
    ofRatio negative (n * m * Nat.pow 2 e.toNat) (Nat.pow 2 (-e).toNat)
  | x => x

/-- A number divided by a power of two, without rounding. -/
def halve (times : Nat) : Binary64 → Binary64
  | .finite negative m e => .finite negative m (e - times)
  | x => x

/-- The text of a number with exactly `places` decimal places. -/
def fixed (places : Nat) : Binary64 → Text
  | .finite negative m e =>
    let r := ratio m e places
    let digits := Text.ofNat (roundRatio r.1 r.2)
    let padded := List.replicate (places + 1 - digits.length) '0' ++ digits
    let cut := padded.length - places
    (if negative then ['-'] else []) ++ padded.take cut
      ++ (if places = 0 then [] else '.' :: padded.drop cut)
  | .infinite negative => if negative then "-inf" else "inf"
  | .nan => "nan"

end Binary64

end SvgKit
