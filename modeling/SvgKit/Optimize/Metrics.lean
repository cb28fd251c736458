import SvgKit.Failure
import SvgKit.Json.Basic
import SvgKit.Text.Utf8

/-! Sizes of texts in bytes: the limit on them and what an optimization saves. -/

namespace SvgKit

/-- Refuses a text of more bytes than the limit. Both numbers have to be told then. -/
def checkSize (limit : Int) (s : Text) : Except Failure Unit :=
  let size := s.utf8Size
  if limit < size then
    .error (if isCountable size && isCountable limit then .tooLarge size limit else .uncountable)
  else .ok ()

/-- A text is accepted exactly when its size does not exceed the limit. -/
theorem checkSize_eq_ok_iff {limit : Int} {s : Text}
    : checkSize limit s = .ok () ↔ (s.utf8Size : Int) ≤ limit := by
  unfold checkSize
  dsimp only
  split
  · simp; omega
  · simp; omega

namespace Optimize

/-- The sizes before and after an optimization. -/
structure Metrics where
  originalSize : Nat
  optimizedSize : Nat
  deriving Repr, DecidableEq

namespace Metrics

/-- The sizes of two texts. -/
def compare (original optimized : Text) : Metrics := ⟨original.utf8Size, optimized.utf8Size⟩

/-- The bytes saved; negative when the text grew. -/
def savedBytes (m : Metrics) : Int := m.originalSize - m.optimizedSize

/-- A part of a whole in percent with one decimal place; of nothing it is zero. -/
def percent (part : Int) (whole : Nat) : Text :=
  let share := if whole = 0 then .ofQuotient 0 1 else (Binary64.ofQuotient part whole).times 100
  share.fixed 1 ++ "%"

/-- The part saved, in percent. -/
def savedPercent (m : Metrics) : Text := percent m.savedBytes m.originalSize

/-- The new size as a part of the original one, with three decimal places. -/
def ratio (m : Metrics) : Text :=
  let quotient :=
    if m.originalSize = 0 then .ofQuotient 0 1
    else Binary64.ofQuotient m.optimizedSize m.originalSize
  quotient.fixed 3

/-- The metrics in the order in which they are shown. -/
def toJson (m : Metrics) : Json :=
  .object
    [ ("original_size", .int m.originalSize),
      ("optimized_size", .int m.optimizedSize),
      ("saved_bytes", .int m.savedBytes),
      ("saved_percent", .string m.savedPercent),
      ("ratio", .string m.ratio) ]

end Metrics

end Optimize

end SvgKit
