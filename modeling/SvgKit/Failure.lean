import SvgKit.Number.ByteCount
import SvgKit.Text.Quoted

/-! The ways in which an operation fails, their kinds and their wording. -/

namespace SvgKit

/-- The frameworks that components are generated for, in the order in which they are listed. -/
inductive Framework where
  | react
  | vue
  | svelte
  | webComponent
  deriving Repr, DecidableEq

/-- All frameworks. -/
def Framework.all : List Framework := [.react, .vue, .svelte, .webComponent]

/-- The name by which a framework is asked for. -/
def Framework.name : Framework → Text
  | .react => "react"
  | .vue => "vue"
  | .svelte => "svelte"
  | .webComponent => "web-component"

/-- The framework of a name. -/
def Framework.ofName? (name : Text) : Option Framework := Framework.all.find? (·.name = name)

/-- Why a text has no root element to take apart. -/
inductive RootFault where
  | absent
  | unopened
  | unclosed
  deriving Repr, DecidableEq

/-- The wording of a missing root. -/
def RootFault.message : RootFault → Text
  | .absent => "No <svg> root element found"
  | .unopened => "Root <svg> element has no content (self-closing or unterminated tag)"
  | .unclosed => "Root <svg> element is missing its closing </svg> tag"

/-- The causes of failure. -/
inductive Failure where
  | notSvg
  | tooManyItems (count limit : Nat)
  | tooLarge (size : Nat) (limit : Int)
  | uncountable
  | noRoot (fault : RootFault)
  | noComponent (fault : RootFault)
  | unreadable
  | wrongRoot (name : Text)
  | unknownFramework (name : Text)
  | unregistered (framework : Framework)
  | notANumber (token : Text)
  | negativePrecision
  | roundedTooLarge
  | declaredEncoding
  | emptyCache
  | registeredTwice (framework : Framework)
  | notAFramework (name : Text)
  deriving Repr, DecidableEq

/-- The kinds of failure that callers tell apart. -/
inductive FailureKind where
  | invalidInput
  | contentTooLarge
  | malformedSvg
  | invalidSvgContent
  | optimizer
  | unsupportedFramework
  | general
  | value
  | overflow
  deriving Repr, DecidableEq

namespace Failure

/-- The kind of a failure. -/
def kind : Failure → FailureKind
  | .notSvg => .invalidInput
  | .tooManyItems .. => .invalidInput
  | .tooLarge .. => .contentTooLarge
  | .uncountable => .overflow
  | .noRoot _ => .malformedSvg
  | .noComponent _ => .invalidSvgContent
  | .unreadable => .optimizer
  | .wrongRoot _ => .optimizer
  | .unknownFramework _ => .unsupportedFramework
  | .unregistered _ => .unsupportedFramework
  | .notANumber _ => .value
  | .negativePrecision => .value
  | .roundedTooLarge => .overflow
  | .declaredEncoding => .value
  | .emptyCache => .value
  | .registeredTwice _ => .value
  | .notAFramework _ => .value

/-- The wording of a failure. -/
def message : Failure → Text
  | .notSvg => "Invalid SVG content: must start with <svg or <?xml"
  | .tooManyItems count limit =>
    "Too many items: " ++ Text.ofNat count ++ ". Maximum batch size is "
      ++ Text.ofNat limit ++ "."
  | .tooLarge size limit =>
    "SVG content too large (" ++ formatBytes size ++ "). Maximum size is "
      ++ formatBytes limit ++ "."
  | .uncountable => "int too large to convert to float"
  | .noRoot fault => fault.message
  | .noComponent fault => "Invalid SVG content: " ++ fault.message
  | .unreadable => "Unable to parse SVG"
  | .wrongRoot name => "Root element is <" ++ name ++ ">, expected <svg>"
  | .unknownFramework name =>
    "Unsupported framework " ++ Text.quoted name ++ "; expected one of: "
      ++ Text.join (", " : Text) (Framework.all.map (·.name))
  | .unregistered framework =>
    "No generator registered for " ++ Text.quoted framework.name
  | .notANumber token => "could not convert string to float: " ++ Text.quoted token
  | .negativePrecision => "Format specifier missing precision"
  | .roundedTooLarge => "rounded value too large to represent"
  | .declaredEncoding =>
    "Unicode strings with encoding declaration are not supported. Please use bytes input or XML fragments without declaration."
  | .emptyCache => "max_size must be >= 1"
  | .registeredTwice framework =>
    "Duplicate generator for framework: " ++ framework.name
  | .notAFramework name => Text.quoted name ++ " is not a valid Framework"

end Failure

/-- The HTTP status that answers a kind of failure; a value error has none. -/
def FailureKind.status? : FailureKind → Option Nat
  | .invalidInput => some 400
  | .unsupportedFramework => some 400
  | .contentTooLarge => some 413
  | .malformedSvg => some 422
  | .invalidSvgContent => some 422
  | .optimizer => some 422
  | .general => some 400
  | .value => none
  | .overflow => none

end SvgKit
