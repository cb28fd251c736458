import SvgKit.Number.Binary64

/-! Byte counts for human readers. -/

namespace SvgKit

/-- A floating point number is near enough to the byte count for it to be told. -/
def isCountable (n : Int) : Bool :=
  match Binary64.ofQuotient n 1 with
  | .finite .. => true
  | _ => false

/-- A byte count in the largest of four units of which it holds at least one, with one decimal
place beyond bytes.
-/
def formatBytes (n : Int) : Text :=
  let size := n.natAbs
  let count := Binary64.ofQuotient n 1
  if size < 1024 then count.fixed 0 ++ " B"
  else if size < Nat.pow 1024 2 then (count.halve 10).fixed 1 ++ " KB"
  else if size < Nat.pow 1024 3 then (count.halve 20).fixed 1 ++ " MB"
  else (count.halve 30).fixed 1 ++ " GB"

end SvgKit
