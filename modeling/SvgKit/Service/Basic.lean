import SvgKit.Cache.Basic
import SvgKit.Lint.Report
import SvgKit.Optimize.Basic
import SvgKit.Service.Description
import SvgKit.Service.Request
import SvgKit.Service.Route

/-! The service: requests are answered one after the other, and results of optimizations are
kept in a cache.
-/

namespace SvgKit.Service

-----------------------------------------------------------------------------------------
-- Settings and state
-----------------------------------------------------------------------------------------

/-- The greatest size of a document in bytes. -/
def maxContentSize : Int := 1024 * 1024

/-- The greatest number of documents in a batch. -/
def maxBatchItems : Nat := 50

/-- Dangerous content is removed unless a request says otherwise. -/
def sanitizeByDefault : Bool := true

/-- The cache of optimized documents. -/
abbrev Results := Cache Optimize.Result

/-- The cache of a new service. -/
def Results.new : Results := { store := ⟨1000, []⟩ }

-----------------------------------------------------------------------------------------
-- Replies
-----------------------------------------------------------------------------------------

/-- What a reply holds. -/
inductive Payload where
  | json (value : Json)
  | text (s : Text)

/-- A reply with its status. -/
structure Reply where
  status : Nat
  payload : Payload

/-- A reply that succeeds. -/
def Reply.success (value : Json) : Reply := ⟨200, .json value⟩

/-- A reply that tells what went wrong. -/
def Reply.detail (status : Nat) (text : Text) : Reply :=
  ⟨status, .json (.object [("detail", .string text)])⟩

/-- A reply that tells the faults of a request. -/
def Reply.faulty (faults : List Fault) : Reply :=
  ⟨422, .json (.object [("detail", .array (faults.map Fault.toJson))])⟩

/-- A reply to a failure. One of a kind without a status tells nothing. -/
def Reply.failed (failure : Failure) : Reply :=
  match failure.kind.status? with
  | some status =>
    ⟨status,
      .json (.object [("success", .bool false), ("error", .string failure.message)])⟩
  | none => ⟨500, .text "Internal Server Error"⟩

-----------------------------------------------------------------------------------------
-- Optimization
-----------------------------------------------------------------------------------------

/-- What the service does to its cache while it works on a request. -/
abbrev Work := ExceptT Failure (StateM Results)

/-- The options that identify a result together with its content. -/
def resultOptions (camelCase sanitize : Bool) : Json :=
  .object [("camel_case", .bool camelCase), ("sanitize", .bool sanitize)]

/-- Optimizes a document unless its result is in the cache, and gives the result the file name.
-/
def optimizeCached (content : Text) (filename : Option Text) (camelCase sanitize : Bool)
    : Work Optimize.Result := fun cache =>
  let options := some (resultOptions camelCase sanitize)
  match cache.get content options with
  | (some result, cache) =>
    (.ok { result with filename := Optimize.nameOr filename }, cache)
  | (none, cache) =>
    match Optimize.run { content, filename, camelCase, sanitize, limit := maxContentSize } with
    | .ok result => (.ok result, cache.set content options result)
    | .error failure => (.error failure, cache)

/-- Answers a request to optimize a document. -/
def optimize (r : OptimizeRequest) : Work Json := do
  let result ←
    optimizeCached r.content r.filename r.camelCase (r.sanitize.getD sanitizeByDefault)
  pure result.toJson.withoutNulls

/-- The result of a document of a batch, with whether it succeeds. -/
def batchResult (camelCase sanitize : Bool) (item : BatchItem) : Work (Bool × Json) :=
  fun cache =>
    let filename := Optimize.nameOr item.filename
    match optimizeCached item.content (some filename) camelCase sanitize cache with
    | (.ok result, cache) => (.ok (true, result.toJson.withoutNulls), cache)
    | (.error failure, cache) =>
      if failure.kind.status?.isSome then
        let members : List (Text × Json) :=
          [("success", .bool false), ("filename", .string filename),
            ("error", .string failure.message)]
        (.ok (false, .object members), cache)
      else (.error failure, cache)

/-- Answers a request to optimize several documents. A document that fails does not stop the
others.
-/
def optimizeBatch (r : BatchRequest) : Work Json := do
  if maxBatchItems < r.items.length then
    throw (.tooManyItems r.items.length maxBatchItems)
  let sanitize := r.sanitize.getD sanitizeByDefault
  let results ← r.items.mapM (batchResult r.camelCase sanitize)
  let successful := results.countP (·.1)
  pure (.object
    [ ("success", .bool true),
      ("total", .int results.length),
      ("successful", .int successful),
      ("failed", .int (results.length - successful)),
      ("results", .array (results.map (·.2))) ])

-----------------------------------------------------------------------------------------
-- Components and checks
-----------------------------------------------------------------------------------------

/-- Answers a request for a component. The document is optimized first unless the request says
otherwise, with attributes in camel case for React only.
-/
def component (framework : Text) (r : ComponentRequest) : Work Json := do
  let entry ← (liftM (Component.Registry.standard.get framework) : Work Component.Entry)
  let target := entry.framework
  let optimization ←
    if r.optimize then
      some <$> optimizeCached r.content (some r.filename) (target = .react) sanitizeByDefault
    else do
      (liftM (checkSize maxContentSize r.content) : Work Unit)
      pure none
  let svg := (optimization.map (·.text)).getD r.content
  let context ← (liftM (Component.Context.ofSvg svg r.filename r.options) : Work _)
  let source := context.source target
  let members : List (Text × Json) :=
    [ ("framework", .string target.name),
      ("component_name", .string context.name),
      ("source_code", .string source.code),
      ("file_extension", .string source.extension),
      ("language_tag", .string source.language) ]
  let more : List (Text × Json) :=
    optimization.toList.map fun result => ("optimization", result.toJson.withoutNulls)
  pure (.object (members ++ more))

/-- Answers a request to check a document. -/
def validate (content : Text) : Work Json := do
  (liftM (checkSize maxContentSize content) : Work Unit)
  pure (Lint.check content).toJson.withoutNulls

-----------------------------------------------------------------------------------------
-- Requests
-----------------------------------------------------------------------------------------

/-- A request: a method, a path and perhaps a body. -/
structure Request where
  method : Text
  path : Text
  body : Option Json

/-- Reads the body of a request and works on it. -/
def withBody {α : Type} (read : Json → Validation α) (body : Option Json) (work : α → Work Json)
    : StateM Results Reply := fun cache =>
  match readBody read body with
  | .faulty faults => (.faulty faults, cache)
  | .valid value =>
    match work value cache with
    | (.ok answer, cache) => (.success answer, cache)
    | (.error failure, cache) => (.failed failure, cache)

/-- Answers a request on its route. -/
def answerRoute (route : Route) (body : Option Json) : StateM Results Reply :=
  match route with
  | .health => pure (.success health)
  | .optimize => withBody OptimizeRequest.ofJson body optimize
  | .optimizeBatch => withBody BatchRequest.ofJson body optimizeBatch
  | .component framework => withBody ComponentRequest.ofJson body (component framework)
  | .validate => withBody readCheckRequest body validate
  | .cacheStats => fun cache => (.success cache.statsJson, cache)
  | .clearCache => fun cache =>
    (.success (.object [("success", .bool true), ("message", .string "Cache cleared")]),
      cache.clear)
  | .tools => pure (.success description)

/-- Answers a request. -/
def answer (r : Request) : StateM Results Reply :=
  match Route.ofPath? r.path with
  | none => pure (.detail 404 "Not Found")
  | some route =>
    if route.method = Text.upper r.method then answerRoute route r.body
    else pure (.detail 405 "Method Not Allowed")

/-- Answers requests in order. -/
def answerAll (requests : List Request) : StateM Results (List Reply) := requests.mapM answer

end SvgKit.Service
