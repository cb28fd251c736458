import Mathlib
import SvgKit.CommandLine.Run

/-! A command that fails leaves nothing behind but a message: whatever keeps it from succeeding shows
before anything is written.
-/

namespace SvgKit.CommandLine

-----------------------------------------------------------------------------------------
-- Results
-----------------------------------------------------------------------------------------

section Component

variable {input : Text} {framework : Framework} {output name : Option Text}
  {typescript memoize propsInterface exportDefault : Bool} {width height : Option Text}

end Component

section Execution

variable {c : Command} {d : Directory} {bytes : List UInt8} {content : Text} {effect : Effect}

end Execution

end SvgKit.CommandLine
