import SvgKit.Proofs.Service.History

/-! Which lookups the requests make, and that the cache of the service is always what the lookups
since it was cleared last have left.
-/

namespace SvgKit.Service

open Optimize (nameOr)

-----------------------------------------------------------------------------------------
-- Work that is recorded
-----------------------------------------------------------------------------------------

/-- The work has the outcome and makes the lookups, with every cache that a history leaves. -/
def Records {α : Type} (known more : List Lookup) (outcome : α) (work : Results → α × Results)
    : Prop :=
  ∀ made cache, Results.Reflects known made cache
    → (work cache).1 = outcome ∧ Results.Reflects known (made ++ more) (work cache).2

variable {known made more later : List Lookup} {l : Lookup} {α β : Type}

namespace Records

theorem pure (a : α) : Records known [] a fun cache => (a, cache) := by
  intro made cache h
  rw [List.append_nil]
  exact ⟨rfl, h⟩

theorem bind {a : α} {outcome : Except Failure β} {work : Work α} {next : α → Work β}
    (hw : Records known more (.ok a) work) (hn : Records known later outcome (next a))
    : Records known (more ++ later) outcome (work >>= next) := by
  intro made cache h
  obtain ⟨ho, h⟩ := hw made cache h
  obtain ⟨hend, h⟩ := hn _ _ h
  rw [Oblivious.bind_of_ok (Prod.ext ho rfl), ← List.append_assoc]
  exact ⟨hend, h⟩

theorem bind_error {failure : Failure} {work : Work α} {next : α → Work β}
    (hw : Records known more (.error failure) work)
    : Records known more (.error failure) (work >>= next) := by
  intro made cache h
  obtain ⟨ho, h⟩ := hw made cache h
  rw [Oblivious.bind_of_error (Prod.ext ho rfl)]
  exact ⟨rfl, h⟩

/-- Work whose result is only put into another form. -/
theorem map {outcome : Except Failure α} {work : Work α} (f : α → β)
    (hw : Records known more outcome work)
    : Records known more (outcome.map f) (f <$> work) := by
  rw [← bind_pure_comp]
  cases outcome with
  | error failure => exact hw.bind_error
  | ok a =>
      rw [← List.append_nil more]
      exact hw.bind (pure _)

/-- Work behind which no lookup is made. -/
theorem exists_bind {outcome : Except Failure α} {work : Work α} {next : α → Work β}
    (hw : Records known more outcome work)
    (hn : ∀ a, ∃ last, Records known [] last (next a))
    : ∃ last, Records known more last (work >>= next) := by
  cases outcome with
  | error failure => exact ⟨_, hw.bind_error⟩
  | ok a =>
      obtain ⟨last, hlast⟩ := hn a
      rw [← List.append_nil more]
      exact ⟨last, hw.bind hlast⟩

/-- Work that begins without touching the cache. -/
theorem exists_bindLift {result : Except Failure α} {next : α → Work β}
    (hn : ∀ a, result = .ok a → ∃ last, Records known more last (next a))
    (he : ∀ failure, result = .error failure → more = [])
    : ∃ last, Records known more last ((liftM result : Work α) >>= next) := by
  cases result with
  | error failure =>
      rw [he failure rfl]
      exact ⟨.error failure, pure _⟩
  | ok a => exact hn a rfl

/-- What is asked for in a body is answered with its outcome. -/
theorem withBody {read : Json → Validation α} {body : Option Json} {value : α}
    {outcome : Except Failure Json} {work : α → Work Json}
    (hbody : readBody read body = .valid value) (hw : Records known more outcome (work value))
    : Records known more (Reply.ofOutcome outcome) (withBody read body work) := by
  intro made cache h
  obtain ⟨rfl, h⟩ := hw made cache h
  rw [withBody_of_valid hbody]
  exact ⟨rfl, h⟩

end Records

section Lookups

variable (hk : CollisionFree (known.map Lookup.keyText))
include hk

theorem records_optimizeCached (hl : l ∈ known) (filename : Option Text)
    : Records known [l] (l.run filename)
        (optimizeCached l.content filename l.camelCase l.sanitize) := by
  intro made cache h
  exact ⟨(optimizeCached_faithful hk hl h.faithful filename).1, h.optimizeCached hk hl filename⟩

theorem records_optimize {r : OptimizeRequest} (hl : r.lookup ∈ known)
    : Records known [r.lookup]
        ((r.lookup.run r.filename).map fun result => result.toJson.withoutNulls)
        (optimize r) := by
  have hw := (records_optimizeCached hk hl r.filename).map fun result =>
    result.toJson.withoutNulls
  rw [← bind_pure_comp] at hw
  exact hw

end Lookups

-----------------------------------------------------------------------------------------
-- Batches
-----------------------------------------------------------------------------------------

/-- The lookups up to the first one that stops the work on a batch. -/
def reached : List Lookup → List Lookup
  | [] => []
  | l :: rest => if l.breaks then [l] else l :: reached rest

theorem reached_subset (lookups : List Lookup) : reached lookups ⊆ lookups := by
  induction lookups with
  | nil => exact List.nil_subset _
  | cons l rest ih =>
      rw [reached]
      split
      · exact List.cons_subset_cons _ (List.nil_subset _)
      · exact List.cons_subset_cons _ ih

namespace BatchRequest

/-- The lookup for a document of the batch. -/
def lookup (r : BatchRequest) (item : BatchItem) : Lookup :=
  ⟨item.content, r.camelCase, r.sanitize.getD sanitizeByDefault⟩

/-- The lookups that the batch makes: none at all if it is too large. -/
def lookupsMade (r : BatchRequest) : List Lookup :=
  if maxBatchItems < r.items.length then [] else reached r.lookups

/-- What becomes of a document of the batch. -/
def itemOutcome (r : BatchRequest) (item : BatchItem) : Except Failure (Bool × Json) :=
  batchOutcome (nameOr item.filename) ((r.lookup item).run (some (nameOr item.filename)))

/-- The answer with the results of all documents. -/
def answer (results : List (Bool × Json)) : Json :=
  let successful := results.countP (·.1)
  .object
    [ ("success", .bool true),
      ("total", .int results.length),
      ("successful", .int successful),
      ("failed", .int (results.length - successful)),
      ("results", .array (results.map (·.2))) ]

/-- What becomes of the batch. -/
def outcome (r : BatchRequest) : Except Failure Json :=
  if maxBatchItems < r.items.length then .error (.tooManyItems r.items.length maxBatchItems)
  else (r.items.mapM r.itemOutcome).map answer

end BatchRequest

theorem breaks_iff (r : BatchRequest) (item : BatchItem)
    : (r.lookup item).breaks ↔ ∃ failure, r.itemOutcome item = .error failure := by
  rw [BatchRequest.itemOutcome, Lookup.breaks,
    (r.lookup item).run_filename (some (nameOr item.filename))]
  cases (r.lookup item).run none with
  | ok result => simp [Except.map, batchOutcome]
  | error failure => cases hs : failure.kind.status? <;> simp [Except.map, batchOutcome, hs]

section Batches

variable (hk : CollisionFree (known.map Lookup.keyText))
include hk

theorem records_batchResult {r : BatchRequest} {item : BatchItem} (hl : r.lookup item ∈ known)
    : Records known [r.lookup item] (r.itemOutcome item)
        (batchResult r.camelCase (r.sanitize.getD sanitizeByDefault) item) := by
  intro made cache h
  obtain ⟨ho, h⟩ := records_optimizeCached hk hl (some (nameOr item.filename)) made cache h
  rw [batchResult_eq]
  exact ⟨congrArg (batchOutcome (nameOr item.filename)) ho, h⟩

/-- The documents of a batch one after the other, by induction over them: the first one that
stops the work is the last one that is looked up.
-/
theorem records_mapM {r : BatchRequest} {items : List BatchItem}
    (hl : items.map r.lookup ⊆ known)
    : Records known (reached (items.map r.lookup)) (items.mapM r.itemOutcome)
        (items.mapM (batchResult r.camelCase (r.sanitize.getD sanitizeByDefault))) := by
  induction items with
  | nil => exact Records.pure _
  | cons item items ih =>
      rw [List.map_cons, List.cons_subset] at hl
      have hfirst := records_batchResult hk hl.1
      rw [List.mapM_cons, List.mapM_cons, List.map_cons, reached]
      cases ho : r.itemOutcome item with
      | error failure =>
          rw [if_pos ((breaks_iff r item).mpr ⟨failure, ho⟩)]
          rw [ho] at hfirst
          exact hfirst.bind_error
      | ok result =>
          have hgoes : ¬ (r.lookup item).breaks := by
            rw [breaks_iff, ho]
            simp
          rw [if_neg hgoes]
          rw [ho] at hfirst
          have hrest := (ih hl.2).map (result :: ·)
          rw [← bind_pure_comp] at hrest
          exact hfirst.bind hrest

theorem records_optimizeBatch {r : BatchRequest} (hl : r.lookups ⊆ known)
    : Records known r.lookupsMade r.outcome (optimizeBatch r) := by
  rw [optimizeBatch, BatchRequest.lookupsMade, BatchRequest.outcome]
  split
  · exact Records.pure _
  · have hw := (records_mapM hk hl).map BatchRequest.answer
    rw [← bind_pure_comp] at hw
    exact hw

end Batches

-----------------------------------------------------------------------------------------
-- Requests
-----------------------------------------------------------------------------------------

/-- The lookups that a request on a route makes. -/
def Route.lookupsMade (body : Option Json) : Route → List Lookup
  | .optimize => bodyLookups OptimizeRequest.ofJson body fun r => [r.lookup]
  | .optimizeBatch => bodyLookups BatchRequest.ofJson body BatchRequest.lookupsMade
  | .component framework => bodyLookups ComponentRequest.ofJson body (·.lookups framework)
  | _ => []

/-- The route that a request reaches with its method. -/
def Request.route? (r : Request) : Option Route :=
  (Route.ofPath? r.path).filter fun route => route.method = Text.upper r.method

/-- The lookups that a request makes. -/
def Request.lookupsMade (r : Request) : List Lookup :=
  match r.route? with
  | none => []
  | some route => route.lookupsMade r.body

/-- The request clears the cache. -/
def Request.clears (r : Request) : Bool := r.route? = some .clearCache

/-- The lookups that requests make since the cache was cleared last. -/
def lookupsSinceClear (requests : List Request) : List Lookup :=
  (requests.rtakeWhile fun r => !r.clears).flatMap Request.lookupsMade

theorem bodyLookups_subset {α : Type} {read : Json → Validation α} {body : Option Json}
    {made may : α → List Lookup} (h : ∀ value, made value ⊆ may value)
    : bodyLookups read body made ⊆ bodyLookups read body may := by
  unfold bodyLookups
  split
  · exact h _
  · exact List.Subset.refl _

/-- A request makes no lookup but those that it may make, however far the work on it goes. -/
theorem Request.lookupsMade_subset (r : Request) : r.lookupsMade ⊆ r.lookups := by
  unfold lookupsMade lookups route?
  cases hroute : Route.ofPath? r.path with
  | none => exact List.Subset.refl _
  | some route =>
      by_cases hm : route.method = Text.upper r.method
      · rw [Option.filter_some, if_pos (decide_eq_true hm)]
        cases route with
        | optimizeBatch =>
            apply bodyLookups_subset
            intro batch
            rw [BatchRequest.lookupsMade]
            split
            · exact List.nil_subset _
            · exact reached_subset _
        | _ => exact List.Subset.refl _
      · rw [Option.filter_some, if_neg (by simpa using hm)]
        exact List.nil_subset _

theorem Request.route?_eq_some_iff {r : Request} {route : Route}
    : r.route? = some route
      ↔ Route.ofPath? r.path = some route ∧ route.method = Text.upper r.method := by
  rw [route?, Option.filter_eq_some_iff, decide_eq_true_iff]

theorem answer_of_route? {r : Request} {route : Route} (h : r.route? = some route)
    : answer r = answerRoute route r.body := by
  obtain ⟨hroute, hm⟩ := Request.route?_eq_some_iff.mp h
  simp only [answer, hroute, if_pos hm]

theorem answer_of_route?_eq_none {r : Request} (h : r.route? = none)
    : ∃ reply, answer r = Pure.pure reply := by
  unfold answer
  cases hroute : Route.ofPath? r.path with
  | none => exact ⟨_, rfl⟩
  | some route =>
      have hm : ¬ route.method = Text.upper r.method := by
        intro hm
        rw [Request.route?_eq_some_iff.mpr ⟨hroute, hm⟩] at h
        cases h
      exact ⟨_, if_neg hm⟩

theorem exists_records_withBody {read : Json → Validation α} {body : Option Json}
    {work : α → Work Json} {made : α → List Lookup} {may : α → List Lookup}
    (hl : bodyLookups read body may ⊆ known)
    (hw : ∀ value, may value ⊆ known → ∃ outcome, Records known (made value) outcome (work value))
    : ∃ reply, Records known (bodyLookups read body made) reply (withBody read body work) := by
  unfold bodyLookups at hl ⊢
  cases hbody : readBody read body with
  | faulty faults =>
      have hwork : withBody read body work = fun cache => (Reply.faulty faults, cache) := by
        funext cache
        rw [withBody, hbody]
      rw [hwork]
      exact ⟨_, Records.pure _⟩
  | valid value =>
      simp only [hbody] at hl
      obtain ⟨outcome, ho⟩ := hw value hl
      exact ⟨_, Records.withBody hbody ho⟩

section Requests

variable (hk : CollisionFree (known.map Lookup.keyText))
include hk

theorem exists_records_component {framework : Text} {r : ComponentRequest}
    (hl : r.lookups framework ⊆ known)
    : ∃ outcome, Records known (r.lookups framework) outcome (component framework r) := by
  unfold component
  unfold ComponentRequest.lookups at hl ⊢
  apply Records.exists_bindLift
  · intro entry hentry
    rw [hentry] at hl ⊢
    dsimp only at hl ⊢
    by_cases ho : r.optimize
    · rw [if_pos ho] at hl ⊢
      rw [if_pos ho]
      have hw := records_optimizeCached hk (hl (List.mem_singleton.mpr rfl)) (some r.filename)
      apply (hw.map some).exists_bind
      intro optimization
      exact Records.exists_bindLift (fun context _ => ⟨_, Records.pure _⟩) fun _ _ => rfl
    · rw [if_neg ho, if_neg ho]
      apply Records.exists_bindLift
      · intro _ _
        rw [pure_bind]
        exact Records.exists_bindLift (fun context _ => ⟨_, Records.pure _⟩) fun _ _ => rfl
      · intro _ _
        rfl
  · intro failure hentry
    rw [hentry]

/-- A request on a route other than the two for the cache has one reply and makes its lookups. -/
theorem exists_records_answerRoute {route : Route} {body : Option Json}
    (hl : route.lookups body ⊆ known) (hs : route ≠ .cacheStats) (hc : route ≠ .clearCache)
    : ∃ reply, Records known (route.lookupsMade body) reply (answerRoute route body) := by
  cases route with
  | cacheStats => exact absurd rfl hs
  | clearCache => exact absurd rfl hc
  | health | tools => exact ⟨_, Records.pure _⟩
  | optimize =>
      apply exists_records_withBody hl
      intro r hr
      exact ⟨_, records_optimize hk (hr (by simp))⟩
  | optimizeBatch =>
      apply exists_records_withBody hl
      intro r hr
      exact ⟨_, records_optimizeBatch hk hr⟩
  | component framework =>
      apply exists_records_withBody hl
      intro r hr
      exact exists_records_component hk hr
  | validate =>
      have hnone : bodyLookups readCheckRequest body (fun _ => []) = [] := by
        unfold bodyLookups
        split <;> rfl
      change ∃ reply, Records known [] reply _
      rw [← hnone]
      apply exists_records_withBody (hnone ▸ List.nil_subset _)
      intro content _
      exact Records.exists_bindLift (fun _ _ => ⟨_, Records.pure _⟩) fun _ _ => rfl

/-- A request adds the lookups that it makes to the history, or begins a new one. -/
theorem reflects_answer {r : Request} {cache : Results} (hl : r.lookups ⊆ known)
    (h : cache.Reflects known made)
    : Results.Reflects known (if r.clears then [] else made ++ r.lookupsMade)
        (answer r cache).2 := by
  unfold Request.clears Request.lookupsMade
  cases hroute : r.route? with
  | none =>
      obtain ⟨reply, hreply⟩ := answer_of_route?_eq_none hroute
      rw [hreply, List.append_nil]
      exact h
  | some route =>
      rw [answer_of_route? hroute]
      have hpath := (Request.route?_eq_some_iff.mp hroute).1
      simp only [Request.lookups, hpath] at hl
      by_cases hc : route = .clearCache
      · subst hc
        exact Results.reflects_empty h.capacity rfl rfl rfl
      · rw [if_neg (by simpa using hc)]
        by_cases hs : route = .cacheStats
        · subst hs
          change Results.Reflects known (made ++ []) cache
          rw [List.append_nil]
          exact h
        · obtain ⟨reply, hrecords⟩ := exists_records_answerRoute hk hl hs hc
          exact (hrecords made cache h).2

end Requests

-----------------------------------------------------------------------------------------
-- Runs
-----------------------------------------------------------------------------------------

/-- The cache after requests to a new service. -/
def Results.after (requests : List Request) : Results := (answerAll requests .new).2

theorem Results.after_concat (requests : List Request) (r : Request)
    : Results.after (requests ++ [r]) = (answer r (Results.after requests)).2 := by
  rw [Results.after, answerAll, List.mapM_append, List.mapM_cons, List.mapM_nil]
  rfl

theorem lookupsSinceClear_concat (requests : List Request) (r : Request)
    : lookupsSinceClear (requests ++ [r])
      = if r.clears then [] else lookupsSinceClear requests ++ r.lookupsMade := by
  rw [lookupsSinceClear, List.rtakeWhile_concat]
  cases r.clears <;> simp [lookupsSinceClear]

/-- The cache is what the lookups since the last clearing have left, by induction over the
requests from the end.
-/
theorem Results.reflects_after (hk : CollisionFree (known.map Lookup.keyText))
    (requests : List Request) (hl : requests.flatMap Request.lookups ⊆ known)
    : Results.Reflects known (lookupsSinceClear requests) (Results.after requests) := by
  induction requests using List.reverseRecOn with
  | nil => exact Results.reflects_empty rfl rfl rfl rfl
  | append_singleton requests r ih =>
      rw [List.flatMap_append, List.append_subset] at hl
      rw [Results.after_concat, lookupsSinceClear_concat]
      apply reflects_answer hk _ (ih hl.1)
      simpa using hl.2

end SvgKit.Service
