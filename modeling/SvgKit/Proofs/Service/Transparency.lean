import SvgKit.Proofs.Cache.Key
import SvgKit.Proofs.Cache.Lru

/-! The cache of the service does not show in its replies. Every stored result is what an
optimization gives for whatever shares its key, and all that a request does to the cache keeps
that; so every reply is the one that a new service gives, but for the statistics.
-/

namespace SvgKit.Service

open Optimize (nameOr)

-----------------------------------------------------------------------------------------
-- What an optimization depends on
-----------------------------------------------------------------------------------------

/-- The optimization that a lookup stands for, with a file name. -/
def Lookup.run (l : Lookup) (filename : Option Text) : Except Failure Optimize.Result :=
  Optimize.run {
    content := l.content
    filename
    camelCase := l.camelCase
    sanitize := l.sanitize
    limit := some maxContentSize }

/-- The file name of a request shows in the file name of the result only. -/
theorem Lookup.run_filename (l : Lookup) (filename : Option Text)
    : l.run filename
      = (l.run none).map fun result => { result with filename := nameOr filename } := by
  unfold Lookup.run Optimize.run Optimize.runWith Optimize.runTasks
  dsimp only
  split
  · rfl
  · cases checkSize maxContentSize (Text.trim l.content) with
    | error => rfl
    | ok =>
        generalize Minify.shrink 3 _ = minified
        cases minified <;> rfl

/-- Blanks at the ends of the content do not matter. -/
theorem Lookup.run_eq {l l' : Lookup} (hc : Text.trim l.content = Text.trim l'.content)
    (hcase : l.camelCase = l'.camelCase) (hs : l.sanitize = l'.sanitize)
    (filename : Option Text)
    : l.run filename = l'.run filename := by
  unfold Lookup.run Optimize.run Optimize.runWith Optimize.runTasks
  simp only [hc, hcase, hs]

/-- The result is that of the lookup, whatever the file name. -/
def Lookup.Gives (l : Lookup) (result : Optimize.Result) : Prop :=
  ∀ filename, l.run filename = .ok { result with filename := nameOr filename }

theorem Lookup.gives_of_run {l : Lookup} {filename : Option Text} {result : Optimize.Result}
    (h : l.run filename = .ok result)
    : l.Gives result := by
  intro other
  rw [l.run_filename] at h ⊢
  cases hn : l.run none with
  | error => simp [hn, Except.map] at h
  | ok first =>
      simp only [hn, Except.map, Except.ok.injEq] at h
      simp only [Except.map, ← h]

-----------------------------------------------------------------------------------------
-- The invariant of the cache
-----------------------------------------------------------------------------------------

/-- Every entry holds the result of a known lookup under its key. -/
def Results.Faithful (known : List Lookup) (cache : Results) : Prop :=
  ∀ key value, (key, value) ∈ cache.store.entries
    → ∃ l ∈ known, key = l.key ∧ ∃ result, value = some result ∧ l.Gives result

theorem Results.faithful_new (known : List Lookup) : Results.new.Faithful known := by
  intro key value h
  cases h

theorem Results.Faithful.clear {known : List Lookup} (cache : Results)
    : Results.Faithful known cache.clear := by
  intro key value h
  cases h

/-- A lookup in a faithful cache finds the result of the lookup, since the digest tells its
text from those of the other known ones.
-/
theorem Results.Faithful.gives_of_get {known : List Lookup} {cache : Results} {l : Lookup}
    {result : Optimize.Result} {store : Lru Text Optimize.Result} (hf : cache.Faithful known)
    (hk : CollisionFree (known.map Lookup.keyText)) (hl : l ∈ known)
    (h : cache.store.get l.key = (some result, store))
    : l.Gives result := by
  obtain ⟨other, ho, hkey, stored, hs, hg⟩ := hf _ _ (Lru.mem_of_get_eq_some h)
  obtain rfl := Option.some.inj hs
  have htext := hk _ (List.mem_map_of_mem hl) _ (List.mem_map_of_mem ho) hkey
  obtain ⟨hc, hcase, hsan⟩ := Lookup.eq_of_keyText_eq htext
  intro filename
  rw [Lookup.run_eq hc hcase hsan, hg]

/-- Optimizing through a faithful cache answers as an optimization without one, and leaves the
cache faithful.
-/
theorem optimizeCached_faithful {known : List Lookup} {cache : Results} {l : Lookup}
    (hk : CollisionFree (known.map Lookup.keyText)) (hl : l ∈ known)
    (hf : cache.Faithful known) (filename : Option Text)
    : (optimizeCached l.content filename l.camelCase l.sanitize cache).1 = l.run filename
      ∧ Results.Faithful known
        (optimizeCached l.content filename l.camelCase l.sanitize cache).2 := by
  have hkey : cacheKey l.content (some (resultOptions l.camelCase l.sanitize)) = l.key := rfl
  have hsame : Optimize.run {
      content := l.content
      filename
      camelCase := l.camelCase
      sanitize := l.sanitize
      limit := some maxContentSize } = l.run filename := rfl
  unfold optimizeCached
  simp only [Cache.get, hkey, hsame]
  rcases hget : cache.store.get l.key with ⟨found, store⟩
  have kept : ∀ key value, (key, value) ∈ store.entries → (key, value) ∈ cache.store.entries := by
    intro key value h
    exact Lru.mem_of_mem_get (by rw [hget]; exact h)
  have hstore : Results.Faithful known { cache with store } :=
    fun key value h => hf key value (kept key value h)
  cases found with
  | some result => exact ⟨(hf.gives_of_get hk hl hget filename).symm, hstore⟩
  | none =>
      cases hrun : l.run filename with
      | error failure => exact ⟨rfl, hstore⟩
      | ok result =>
          refine ⟨rfl, ?_⟩
          intro key value h
          rcases Lru.mem_of_mem_set h with he | h
          · obtain ⟨rfl, rfl⟩ := Prod.mk.inj he
            exact ⟨l, hl, rfl, result, rfl, Lookup.gives_of_run hrun⟩
          · exact hstore key value h

-----------------------------------------------------------------------------------------
-- Work that does not see the cache
-----------------------------------------------------------------------------------------

/-- The work has the same outcome with every faithful cache, and leaves it faithful. -/
def Oblivious (known : List Lookup) {α : Type} (work : Results → α × Results) : Prop :=
  ∃ outcome, ∀ cache : Results, cache.Faithful known
    → (work cache).1 = outcome ∧ Results.Faithful known (work cache).2

namespace Oblivious

variable {known : List Lookup} {α β : Type}

theorem pure (a : α) : Oblivious known fun cache => (a, cache) :=
  ⟨a, fun _ hf => ⟨rfl, hf⟩⟩

theorem bind_of_ok {work : Work α} {next : α → Work β} {cache later : Results} {a : α}
    (h : work cache = (.ok a, later))
    : (work >>= next) cache = next a later := by
  change (ExceptT.bind work next : Work β) cache = _
  simp only [ExceptT.bind, ExceptT.mk, StateT.bind, Bind.bind]
  rw [h]
  rfl

theorem bind_of_error {work : Work α} {next : α → Work β} {cache later : Results}
    {failure : Failure} (h : work cache = (.error failure, later))
    : (work >>= next) cache = (.error failure, later) := by
  change (ExceptT.bind work next : Work β) cache = _
  simp only [ExceptT.bind, ExceptT.mk, StateT.bind, Bind.bind]
  rw [h]
  rfl

/-- What goes on from an outcome may depend on it. -/
theorem bind {work : Work α} {next : α → Work β} (hw : Oblivious known work)
    (hn : ∀ a, Oblivious known (next a))
    : Oblivious known (work >>= next) := by
  obtain ⟨outcome, hw⟩ := hw
  cases outcome with
  | error failure =>
      refine ⟨.error failure, ?_⟩
      intro cache hf
      obtain ⟨ho, hf⟩ := hw cache hf
      rw [bind_of_error (Prod.ext ho rfl)]
      exact ⟨rfl, hf⟩
  | ok a =>
      obtain ⟨result, hn⟩ := hn a
      refine ⟨result, ?_⟩
      intro cache hf
      obtain ⟨ho, hf⟩ := hw cache hf
      rw [bind_of_ok (Prod.ext ho rfl)]
      exact hn _ hf

theorem map {work : Work α} (f : α → β) (hw : Oblivious known work)
    : Oblivious known (f <$> work) := by
  rw [← bind_pure_comp]
  exact bind hw fun a => pure _

/-- Work on items one after the other, by induction over them. -/
theorem mapM {items : List α} {work : α → Work β} (hw : ∀ a ∈ items, Oblivious known (work a))
    : Oblivious known (items.mapM work) := by
  induction items with
  | nil => exact pure _
  | cons a items ih =>
      rw [List.mapM_cons]
      apply bind (hw a (by simp))
      intro b
      apply bind (ih fun a ha => hw a (by simp [ha]))
      intro bs
      exact pure _

/-- Work that begins without touching the cache. -/
theorem bindLift {result : Except Failure α} {next : α → Work β}
    (hn : ∀ a, result = .ok a → Oblivious known (next a))
    : Oblivious known ((liftM result : Work α) >>= next) := by
  cases result with
  | error failure => exact ⟨.error failure, fun _ hf => ⟨rfl, hf⟩⟩
  | ok a => exact hn a rfl

end Oblivious

/-- The result of a document of a batch, from the outcome of its optimization. -/
def batchOutcome (filename : Text)
    : Except Failure Optimize.Result → Except Failure (Bool × Json)
  | .ok result => .ok (true, result.toJson.withoutNulls)
  | .error failure =>
    if failure.kind.status?.isSome then
      .ok (false, .object
        [("success", .bool false), ("filename", .string filename),
          ("error", .string failure.message)])
    else .error failure

theorem batchResult_eq (camelCase sanitize : Bool) (item : BatchItem) (cache : Results)
    : batchResult camelCase sanitize item cache
      = (batchOutcome (nameOr item.filename)
          (optimizeCached item.content (some (nameOr item.filename)) camelCase sanitize cache).1,
        (optimizeCached item.content (some (nameOr item.filename)) camelCase sanitize cache).2) := by
  unfold batchResult
  dsimp only
  obtain ⟨run, hrun⟩ : ∃ run : Except Failure Optimize.Result × Results,
      optimizeCached item.content (some (nameOr item.filename)) camelCase sanitize cache = run :=
    ⟨_, rfl⟩
  rw [hrun]
  rcases run with ⟨failure | result, later⟩
  · simp only [batchOutcome]
    split <;> rfl
  · rfl

/-- The reply that an outcome is given as. -/
def Reply.ofOutcome : Except Failure Json → Reply
  | .ok answer => .success answer
  | .error failure => .failed failure

theorem withBody_of_valid {α : Type} {read : Json → Validation α} {body : Option Json}
    {value : α} (h : readBody read body = .valid value) (work : α → Work Json)
    (cache : Results)
    : withBody read body work cache
      = (Reply.ofOutcome (work value cache).1, (work value cache).2) := by
  unfold withBody
  rw [h]
  dsimp only
  obtain ⟨run, hrun⟩ : ∃ run : Except Failure Json × Results, work value cache = run :=
    ⟨_, rfl⟩
  rw [hrun]
  rcases run with ⟨failure | answer, later⟩ <;> rfl

-----------------------------------------------------------------------------------------
-- The lookups of requests
-----------------------------------------------------------------------------------------

/-- The lookup of a request to optimize a document. -/
def OptimizeRequest.lookup (r : OptimizeRequest) : Lookup :=
  ⟨r.content, r.camelCase, r.sanitize.getD sanitizeByDefault⟩

/-- The lookups of a request to optimize several documents. -/
def BatchRequest.lookups (r : BatchRequest) : List Lookup :=
  r.items.map fun item => ⟨item.content, r.camelCase, r.sanitize.getD sanitizeByDefault⟩

/-- The lookup of a request for a component, if it optimizes its document. -/
def ComponentRequest.lookups (r : ComponentRequest) (framework : Text) : List Lookup :=
  match Component.Registry.standard.get framework with
  | .ok entry =>
    if r.optimize then [⟨r.content, entry.framework = .react, sanitizeByDefault⟩] else []
  | .error _ => []

/-- The lookups that go with the value of a body, if it has one. -/
def bodyLookups {α : Type} (read : Json → Validation α) (body : Option Json)
    (lookups : α → List Lookup)
    : List Lookup :=
  match readBody read body with
  | .valid value => lookups value
  | .faulty _ => []

/-- The lookups on a route. -/
def Route.lookups (body : Option Json) : Route → List Lookup
  | .optimize => bodyLookups OptimizeRequest.ofJson body fun r => [r.lookup]
  | .optimizeBatch => bodyLookups BatchRequest.ofJson body BatchRequest.lookups
  | .component framework => bodyLookups ComponentRequest.ofJson body (·.lookups framework)
  | _ => []

/-- What a request may look up in the cache. -/
def Request.lookups (r : Request) : List Lookup :=
  match Route.ofPath? r.path with
  | none => []
  | some route => route.lookups r.body

/-- The request asks for the statistics of the cache. -/
def Request.asksStatistics (r : Request) : Prop :=
  Route.ofPath? r.path = some .cacheStats ∧ Text.upper r.method = Route.cacheStats.method

-----------------------------------------------------------------------------------------
-- Requests do not see the cache
-----------------------------------------------------------------------------------------

theorem oblivious_withBody {known : List Lookup} {α : Type} {read : Json → Validation α} {body : Option Json}
    {work : α → Work Json} {lookups : α → List Lookup}
    (hl : bodyLookups read body lookups ⊆ known)
    (hw : ∀ value, lookups value ⊆ known → Oblivious known (work value))
    : Oblivious known (withBody read body work) := by
  unfold bodyLookups at hl
  cases hbody : readBody read body with
  | faulty faults =>
      refine ⟨.faulty faults, ?_⟩
      intro cache hf
      unfold withBody
      rw [hbody]
      exact ⟨rfl, hf⟩
  | valid value =>
      simp only [hbody] at hl
      obtain ⟨outcome, ho⟩ := hw value hl
      refine ⟨Reply.ofOutcome outcome, ?_⟩
      intro cache hf
      obtain ⟨rfl, hf⟩ := ho cache hf
      rw [withBody_of_valid hbody]
      exact ⟨rfl, hf⟩

section

variable {known : List Lookup} (hk : CollisionFree (known.map Lookup.keyText))
include hk

theorem oblivious_optimizeCached {l : Lookup} (hl : l ∈ known) (filename : Option Text)
    : Oblivious known (optimizeCached l.content filename l.camelCase l.sanitize) :=
  ⟨l.run filename, fun _ hf => optimizeCached_faithful hk hl hf filename⟩

theorem oblivious_optimize {r : OptimizeRequest} (hl : r.lookup ∈ known)
    : Oblivious known (optimize r) := by
  apply Oblivious.bind (oblivious_optimizeCached hk hl r.filename)
  intro result
  exact Oblivious.pure _

theorem oblivious_batchResult {item : BatchItem} {camelCase sanitize : Bool}
    (hl : ⟨item.content, camelCase, sanitize⟩ ∈ known)
    : Oblivious known (batchResult camelCase sanitize item) := by
  obtain ⟨outcome, ho⟩ := oblivious_optimizeCached hk hl (some (nameOr item.filename))
  refine ⟨batchOutcome (nameOr item.filename) outcome, ?_⟩
  intro cache hf
  obtain ⟨rfl, hf⟩ := ho cache hf
  rw [batchResult_eq]
  exact ⟨rfl, hf⟩

theorem oblivious_optimizeBatch {r : BatchRequest} (hl : r.lookups ⊆ known)
    : Oblivious known (optimizeBatch r) := by
  unfold optimizeBatch
  split
  · exact ⟨.error (.tooManyItems r.items.length maxBatchItems), fun _ hf => ⟨rfl, hf⟩⟩
  · apply Oblivious.bind (Oblivious.mapM ?_)
    · intro results
      exact Oblivious.pure _
    · intro item hi
      exact oblivious_batchResult hk (hl (List.mem_map_of_mem hi))

theorem oblivious_component {framework : Text} {r : ComponentRequest}
    (hl : r.lookups framework ⊆ known)
    : Oblivious known (component framework r) := by
  unfold component
  apply Oblivious.bindLift
  intro entry hentry
  unfold ComponentRequest.lookups at hl
  rw [hentry] at hl
  dsimp only at hl ⊢
  split
  · next ho =>
    rw [if_pos ho] at hl
    have hw := oblivious_optimizeCached hk (hl (List.mem_singleton.mpr rfl)) (some r.filename)
    apply Oblivious.bind (hw.map some)
    intro optimization
    apply Oblivious.bindLift
    intro context _
    exact Oblivious.pure _
  · apply Oblivious.bindLift
    intro _ _
    rw [pure_bind]
    apply Oblivious.bindLift
    intro context _
    exact Oblivious.pure _

/-- A route answers alike with every faithful cache, unless it shows the statistics. -/
theorem oblivious_answerRoute {route : Route} {body : Option Json}
    (hl : route.lookups body ⊆ known) (hr : route ≠ .cacheStats)
    : Oblivious known (answerRoute route body) := by
  cases route with
  | cacheStats => exact absurd rfl hr
  | health | tools => exact Oblivious.pure _
  | clearCache => exact ⟨_, fun cache _ => ⟨rfl, Results.Faithful.clear cache⟩⟩
  | optimize =>
      exact oblivious_withBody hl fun r hr => oblivious_optimize hk (hr (by simp))
  | optimizeBatch => exact oblivious_withBody hl fun r hr => oblivious_optimizeBatch hk hr
  | component framework =>
      exact oblivious_withBody hl fun r hr => oblivious_component hk hr
  | validate =>
      have hl : bodyLookups readCheckRequest body (fun _ => []) ⊆ known := by
        unfold bodyLookups
        split <;> simp
      refine oblivious_withBody hl fun content _ => ?_
      apply Oblivious.bindLift
      intro _ _
      exact Oblivious.pure _

theorem oblivious_answer {r : Request} (hl : r.lookups ⊆ known) (hr : ¬ r.asksStatistics)
    : Oblivious known (answer r) := by
  unfold answer
  unfold Request.lookups at hl
  cases hroute : Route.ofPath? r.path with
  | none => exact Oblivious.pure _
  | some route =>
      simp only [hroute] at hl
      dsimp only
      split
      · next hm =>
        apply oblivious_answerRoute hk hl
        rintro rfl
        exact hr ⟨hroute, hm.symm⟩
      · exact Oblivious.pure _

/-- A request leaves a faithful cache faithful, also one for the statistics. -/
theorem faithful_answer {r : Request} {cache : Results} (hl : r.lookups ⊆ known)
    (hf : cache.Faithful known)
    : Results.Faithful known (answer r cache).2 := by
  by_cases hr : r.asksStatistics
  · simp only [answer, hr.1, hr.2, if_true, answerRoute]
    exact hf
  · obtain ⟨reply, ho⟩ := oblivious_answer hk hl hr
    exact (ho cache hf).2

end

-----------------------------------------------------------------------------------------
-- Runs
-----------------------------------------------------------------------------------------

theorem answerAll_cons (r : Request) (requests : List Request) (cache : Results)
    : (answerAll (r :: requests) cache).1
      = (answer r cache).1 :: (answerAll requests (answer r cache).2).1 := by
  rw [answerAll, List.mapM_cons]
  rfl

/-- From a faithful cache, each reply is the one of a new service, by induction over the
requests; what is known covers the lookups of all of them.
-/
theorem getElem?_answerAll {known : List Lookup}
    (hk : CollisionFree (known.map Lookup.keyText)) {requests : List Request}
    (hl : requests.flatMap Request.lookups ⊆ known) {cache : Results}
    (hf : cache.Faithful known) {i : Nat} {r : Request} (hr : requests[i]? = some r)
    (hs : ¬ r.asksStatistics)
    : (answerAll requests cache).1[i]? = some (answer r .new).1 := by
  induction requests generalizing cache i with
  | nil => simp at hr
  | cons first requests ih =>
      rw [List.flatMap_cons, List.append_subset] at hl
      rw [answerAll_cons]
      cases i with
      | zero =>
          obtain rfl : first = r := by simpa using hr
          obtain ⟨reply, ho⟩ := oblivious_answer hk hl.1 hs
          simp [(ho cache hf).1, (ho .new (Results.faithful_new known)).1]
      | succ i => exact ih hl.2 (faithful_answer hk hl.1 hf) (by simpa using hr)

/-- The cache is invisible: in every run of a new service, the reply to each request but those
for the statistics is the one that a new service gives to that request alone.
-/
theorem reply_eq_reply_of_new {requests : List Request} {i : Nat} {r : Request}
    (hk : CollisionFree ((requests.flatMap Request.lookups).map Lookup.keyText))
    (hr : requests[i]? = some r) (hs : ¬ r.asksStatistics)
    : (answerAll requests .new).1[i]? = some (answer r .new).1 :=
  getElem?_answerAll hk (List.Subset.refl _) (Results.faithful_new _) hr hs

/-- A request to optimize a document, with further members of its body. -/
private def posted (content : Text) (more : List (Text × Json)) : Request :=
  ⟨"POST", "/api/optimize", some (.object (("content", .string content) :: more))⟩

/-- The third request finds the result of the first one. -/
private def sampleRun : List Request :=
  [posted "<svg/>" [], posted "<svg/>" [("camel_case", .bool false)],
    posted " <svg/>" [("filename", .string "a.svg")]]

private theorem keyTexts_sampleRun
    : (sampleRun.flatMap Request.lookups).map Lookup.keyText
      = [("<svg/>|\x7b\"camel_case\":true,\"sanitize\":true\x7d" : Text),
        "<svg/>|\x7b\"camel_case\":false,\"sanitize\":true\x7d",
        "<svg/>|\x7b\"camel_case\":true,\"sanitize\":true\x7d"] := by
  cbv

private theorem collisionFree_sampleRun
    : CollisionFree ((sampleRun.flatMap Request.lookups).map Lookup.keyText) := by
  rw [keyTexts_sampleRun]
  unfold CollisionFree
  decide +kernel

theorem reply_eq_reply_of_new_hit
    : CollisionFree ((sampleRun.flatMap Request.lookups).map Lookup.keyText)
      ∧ sampleRun[2]? = some (posted " <svg/>" [("filename", .string "a.svg")])
      ∧ ¬ (posted " <svg/>" [("filename", .string "a.svg")]).asksStatistics
      ∧ (answerAll sampleRun .new).1[2]?
        = some (answer (posted " <svg/>" [("filename", .string "a.svg")]) .new).1 := by
  have hs : ¬ (posted " <svg/>" [("filename", .string "a.svg")]).asksStatistics := by
    have hroute : Route.ofPath? "/api/optimize" = some .optimize := by cbv
    simp [Request.asksStatistics, posted, hroute]
  exact ⟨collisionFree_sampleRun, rfl, hs, reply_eq_reply_of_new collisionFree_sampleRun rfl hs⟩

end SvgKit.Service
