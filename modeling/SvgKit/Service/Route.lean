import SvgKit.Text.Utf8

/-! The paths of the service and the methods that they take. -/

namespace SvgKit.Service

/-- What a request asks for. -/
inductive Route where
  | health
  | optimize
  | optimizeBatch
  | component (framework : Text)
  | validate
  | cacheStats
  | clearCache
  | tools
  deriving Repr, DecidableEq

/-- The method that a route takes. -/
def Route.method : Route → Text
  | .health => "GET"
  | .optimize => "POST"
  | .optimizeBatch => "POST"
  | .component _ => "POST"
  | .validate => "POST"
  | .cacheStats => "GET"
  | .clearCache => "DELETE"
  | .tools => "GET"

/-- The value of a hexadecimal digit. -/
def hexDigit? (c : Char) : Option Nat :=
  let i := ("0123456789abcdef" : Text).idxOf c.toLower
  if i < 16 then some i else none

/-- The bytes of a path in which a percent sign and two hexadecimal digits stand for a byte. -/
def pathBytes : Text → List UInt8
  | [] => []
  | '%' :: x :: y :: s =>
    match hexDigit? x, hexDigit? y with
    | some x, some y => UInt8.ofNat (16 * x + y) :: pathBytes s
    | _, _ => 0x25 :: pathBytes (x :: y :: s)
  | c :: s => String.utf8EncodeChar c ++ pathBytes s

/-- The characters of a path, without a query or fragment behind it. A path that is not UTF-8
is left as it is.
-/
def decodePath (path : Text) : Text :=
  let path := path.takeWhile fun c => c ≠ '?' && c ≠ '#'
  match Text.decodeUtf8 (pathBytes path) with
  | .ok decoded => decoded
  | .error _ => path

/-- The routes without parameters. -/
def fixedRoutes : List (Text × Route) :=
  [("/api/health", .health), ("/api/optimize", .optimize),
    ("/api/optimize/batch", .optimizeBatch), ("/api/validate", .validate),
    ("/api/cache/stats", .cacheStats), ("/api/cache", .clearCache), ("/api/mcp", .tools)]

/-- The route of exactly this path. -/
def exactRoute? (path : Text) : Option Route :=
  match fixedRoutes.lookup path with
  | some route => some route
  | none =>
    match Text.dropLiteral? "/api/components/" path with
    | some framework =>
      if framework.isEmpty || framework.contains '/' then none
      else some (.component framework)
    | none => none

/-- The route of a path. Slashes at the end do not matter. -/
def Route.ofPath? (path : Text) : Option Route :=
  let path := decodePath path
  exactRoute? path <|> exactRoute? (Text.dropEndWhile (· = '/') path)

end SvgKit.Service
