import SvgKit.Proofs.Service.Run

/-! A batch is answered as its documents are when they are sent one by one. -/

namespace SvgKit.Service

open Optimize (nameOr)

variable {known made : List Lookup}

-----------------------------------------------------------------------------------------
-- Single requests
-----------------------------------------------------------------------------------------

/-- The request reaches a route with a body that reads as a value. -/
def Request.Asks {α : Type} (r : Request) (route : Route) (read : Json → Validation α) (value : α)
    : Prop :=
  r.route? = some route ∧ readBody read r.body = .valid value

theorem records_answer {α : Type} {r : Request} {route : Route} {read : Json → Validation α}
    {value : α} {work : α → Work Json} {more : List Lookup} {outcome : Except Failure Json}
    (hr : r.Asks route read value) (hroute : answerRoute route r.body = withBody read r.body work)
    (hw : Records known more outcome (work value))
    : Records known more (Reply.ofOutcome outcome) (answer r) := by
  rw [answer_of_route? hr.1, hroute]
  exact hw.withBody hr.2

/-- The request for a document of a batch alone. -/
def BatchRequest.alone (batch : BatchRequest) (item : BatchItem) : OptimizeRequest :=
  ⟨item.content, item.filename, batch.camelCase, batch.sanitize⟩

/-- A request that asks for an optimization, with all members in its body. -/
def OptimizeRequest.toRequest (r : OptimizeRequest) : Request :=
  ⟨"POST", "/api/optimize", some (.object
    [ ("content", .string r.content),
      ("filename", r.filename.elim .null .string),
      ("camel_case", .bool r.camelCase),
      ("sanitize", r.sanitize.elim .null .bool) ])⟩

theorem OptimizeRequest.asks_toRequest (r : OptimizeRequest)
    : r.toRequest.Asks .optimize OptimizeRequest.ofJson r := by
  have hroute : Route.ofPath? "/api/optimize" = some .optimize := by cbv
  have hmethod : Route.optimize.method = Text.upper "POST" := by with_unfolding_all decide
  refine ⟨Request.route?_eq_some_iff.mpr ⟨hroute, hmethod⟩, ?_⟩
  obtain ⟨content, filename, camelCase, sanitize⟩ := r
  cases filename <;> cases sanitize <;> cbv

/-- The result of a document in a batch is the body of the reply to the document alone if that
succeeds, and otherwise tells its error with the file name.
-/
def BatchItem.Agrees (item : BatchItem) (alone : Reply) (result : Json) : Prop :=
  (alone.status = 200 ∧ alone.payload = .json result)
    ∨ (alone.status ≠ 200 ∧ ∃ message : Text,
      alone.payload = .json (.object [("success", .bool false), ("error", .string message)])
        ∧ result = .object
          [("success", .bool false), ("filename", .string (nameOr item.filename)),
            ("error", .string message)])

theorem nameOr_nameOr (filename : Option Text)
    : nameOr (some (nameOr filename)) = nameOr filename := by
  have huntitled : nameOr (some Optimize.untitled) = Optimize.untitled := by with_unfolding_all decide
  cases filename with
  | none => exact huntitled
  | some name =>
      cases name with
      | nil => exact huntitled
      | cons c name => rfl

theorem status?_ne_success {kind : FailureKind} {status : Nat} (h : kind.status? = some status)
    : status ≠ 200 := by
  rintro rfl
  cases kind <;> cases h

/-- What becomes of a document in a batch goes with the reply to it alone. -/
theorem agrees_of_itemOutcome {batch : BatchRequest} {item : BatchItem} {result : Bool × Json}
    (h : batch.itemOutcome item = .ok result)
    : item.Agrees
        (Reply.ofOutcome (((batch.lookup item).run item.filename).map fun result =>
          result.toJson.withoutNulls))
        result.2 := by
  rw [BatchRequest.itemOutcome, (batch.lookup item).run_filename (some _)] at h
  rw [(batch.lookup item).run_filename item.filename]
  cases hrun : (batch.lookup item).run none with
  | ok first =>
      rw [hrun] at h
      simp only [Except.map, batchOutcome, nameOr_nameOr] at h
      obtain rfl := Except.ok.inj h
      exact .inl ⟨rfl, rfl⟩
  | error failure =>
      rw [hrun] at h
      simp only [Except.map, batchOutcome] at h
      split at h
      · next hs =>
        obtain ⟨status, hstatus⟩ := Option.isSome_iff_exists.mp hs
        obtain rfl := Except.ok.inj h
        refine .inr ⟨?_, failure.message, ?_, rfl⟩
        · simp only [Except.map, Reply.ofOutcome, Reply.failed, hstatus]
          exact status?_ne_success hstatus
        · simp only [Except.map, Reply.ofOutcome, Reply.failed, hstatus]
      · cases h

-----------------------------------------------------------------------------------------
-- Batches
-----------------------------------------------------------------------------------------

theorem forall₂_of_mapM_ok {α β : Type} {f : α → Except Failure β} {items : List α}
    (h : ∀ item ∈ items, ∃ result, f item = .ok result)
    : ∃ results, items.mapM f = .ok results
      ∧ List.Forall₂ (fun item result => f item = .ok result) items results := by
  induction items with
  | nil => exact ⟨[], rfl, .nil⟩
  | cons item items ih =>
      obtain ⟨result, hresult⟩ := h item (by simp)
      obtain ⟨results, hresults, hall⟩ := ih fun item hmem => h item (by simp [hmem])
      refine ⟨result :: results, ?_, .cons hresult hall⟩
      rw [List.mapM_cons, hresult, hresults]
      rfl

theorem BatchRequest.answer_eq (results : List (Bool × Json))
    : ∃ failed : Nat, results.countP (·.1) + failed = results.length
      ∧ BatchRequest.answer results = .object
        [ ("success", .bool true),
          ("total", .int results.length),
          ("successful", .int (results.countP (·.1))),
          ("failed", .int failed),
          ("results", .array (results.map (·.2))) ] := by
  have hle : results.countP (·.1) ≤ results.length := List.countP_le_length
  refine ⟨results.length - results.countP (·.1), by omega, ?_⟩
  rw [BatchRequest.answer, Nat.cast_sub hle]

section

variable (hk : CollisionFree (known.map Lookup.keyText))
include hk

theorem records_alone {batch : BatchRequest} {item : BatchItem} {r : Request}
    (hr : r.Asks .optimize OptimizeRequest.ofJson (batch.alone item))
    (hl : batch.lookup item ∈ known)
    : Records known [batch.lookup item]
        (Reply.ofOutcome (((batch.lookup item).run item.filename).map fun result =>
          result.toJson.withoutNulls))
        (answer r) :=
  records_answer hr rfl (records_optimize hk hl)

theorem records_batch {batch : BatchRequest} {r : Request}
    (hr : r.Asks .optimizeBatch BatchRequest.ofJson batch) (hl : batch.lookups ⊆ known)
    : Records known batch.lookupsMade (Reply.ofOutcome batch.outcome) (answer r) :=
  records_answer hr rfl (records_optimizeBatch hk hl)

end

/-- A batch equals its documents sent one by one: whatever was asked before, a batch of at most
fifty documents none of which breaks the optimizer is answered with one result for each of them,
which agrees with the reply to the document alone, whatever was asked before that. A larger
batch is refused, and leaves the cache as it is.
-/
theorem answer_of_batch {requests others : List Request} {r : Request} {batch : BatchRequest}
    (hr : r.Asks .optimizeBatch BatchRequest.ofJson batch)
    (hk : CollisionFree
      ((batch.lookups ++ (requests ++ others).flatMap Request.lookups).map Lookup.keyText))
    : (batch.items.length ≤ maxBatchItems
        → (∀ item ∈ batch.items, ¬ (batch.lookup item).breaks)
        → ∃ (results : List Json) (successful failed : Nat),
          (answer r (Results.after requests)).1
            = .success (.object
              [ ("success", .bool true),
                ("total", .int batch.items.length),
                ("successful", .int successful),
                ("failed", .int failed),
                ("results", .array results) ])
          ∧ successful + failed = batch.items.length
          ∧ List.Forall₂
            (fun item result => ∀ alone : Request,
              alone.Asks .optimize OptimizeRequest.ofJson (batch.alone item)
                → item.Agrees (answer alone (Results.after others)).1 result)
            batch.items results)
      ∧ (maxBatchItems < batch.items.length → ∀ cache,
        answer r cache
          = (⟨400, .json (.object
              [ ("success", .bool false),
                ("error", .string
                  (Failure.tooManyItems batch.items.length maxBatchItems).message) ])⟩,
            cache)) := by
  constructor
  · intro hfew hgoes
    rw [List.flatMap_append] at hk
    have hlookups := List.subset_append_left batch.lookups
      (requests.flatMap Request.lookups ++ others.flatMap Request.lookups)
    have hbefore := Results.reflects_after hk requests
      fun l hl => List.mem_append_right _ (List.mem_append_left _ hl)
    have hother := Results.reflects_after hk others
      fun l hl => List.mem_append_right _ (List.mem_append_right _ hl)
    have hok : ∀ item ∈ batch.items, ∃ result, batch.itemOutcome item = .ok result := by
      intro item hmem
      cases ho : batch.itemOutcome item with
      | ok result => exact ⟨result, rfl⟩
      | error failure => exact absurd ((breaks_iff _ _).mpr ⟨failure, ho⟩) (hgoes item hmem)
    obtain ⟨results, hresults, hall⟩ := forall₂_of_mapM_ok hok
    obtain ⟨failed, hsum, hanswer⟩ := BatchRequest.answer_eq results
    have hlength : results.length = batch.items.length := hall.length_eq.symm
    rw [hlength] at hsum hanswer
    refine ⟨results.map (·.2), results.countP (·.1), failed, ?_, hsum, ?_⟩
    · rw [(records_batch hk hr hlookups _ _ hbefore).1, BatchRequest.outcome,
        if_neg (Nat.not_lt.mpr hfew), hresults, ← hanswer]
      rfl
    · rw [List.forall₂_map_right_iff]
      refine (List.forall₂_and_left _ _).mpr ⟨fun _ hmem => hmem, hall⟩ |>.imp ?_
      rintro item result ⟨hmem, ho⟩ alone halone
      have hl : batch.lookup item ∈ batch.lookups := List.mem_map_of_mem hmem
      rw [(records_alone hk halone (hlookups hl) _ _ hother).1]
      exact agrees_of_itemOutcome ho
  · intro hmany cache
    rw [answer_of_route? hr.1]
    change withBody BatchRequest.ofJson r.body optimizeBatch cache = _
    rw [withBody_of_valid hr.2, optimizeBatch, if_pos hmany]
    rfl

/-- The first document succeeds and the second one fails. -/
private def sampleBatch : BatchRequest :=
  ⟨[⟨"<svg/>", none⟩, ⟨"none", some "none.svg"⟩], true, some false⟩

private def sampleBatchRequest : Request :=
  ⟨"POST", "/api/optimize/batch",
    some (.object
      [("items", .array
        [.object [("content", .string "<svg/>")],
          .object [("content", .string "none"), ("filename", .string "none.svg")]]),
        ("sanitize", .bool false)])⟩

private theorem asks_sampleBatchRequest
    : sampleBatchRequest.Asks .optimizeBatch BatchRequest.ofJson sampleBatch := by
  have hroute : Route.ofPath? "/api/optimize/batch" = some .optimizeBatch := by cbv
  exact ⟨Request.route?_eq_some_iff.mpr ⟨hroute, by with_unfolding_all decide⟩, by cbv⟩

private theorem collisionFree_sampleBatch
    : CollisionFree ((sampleBatch.lookups
        ++ ([sampleBatchRequest] ++ []).flatMap Request.lookups).map Lookup.keyText) := by
  have htexts : (sampleBatch.lookups
        ++ ([sampleBatchRequest] ++ []).flatMap Request.lookups).map Lookup.keyText
      = [("<svg/>|\x7b\"camel_case\":true,\"sanitize\":false\x7d" : Text),
        "none|\x7b\"camel_case\":true,\"sanitize\":false\x7d",
        "<svg/>|\x7b\"camel_case\":true,\"sanitize\":false\x7d",
        "none|\x7b\"camel_case\":true,\"sanitize\":false\x7d"] := by
    cbv
  rw [htexts]
  unfold CollisionFree
  decide +kernel

theorem answer_of_batch_sampleBatch
    : sampleBatchRequest.Asks .optimizeBatch BatchRequest.ofJson sampleBatch
      ∧ CollisionFree ((sampleBatch.lookups
        ++ ([sampleBatchRequest] ++ []).flatMap Request.lookups).map Lookup.keyText)
      ∧ ∃ (results : List Json) (successful failed : Nat),
        (answer sampleBatchRequest (Results.after [sampleBatchRequest])).1
            = .success (.object
              [ ("success", .bool true), ("total", .int 2),
                ("successful", .int successful), ("failed", .int failed),
                ("results", .array results) ])
          ∧ successful + failed = 2
          ∧ List.Forall₂
            (fun item result =>
              item.Agrees (answer (sampleBatch.alone item).toRequest (Results.after [])).1 result)
            sampleBatch.items results := by
  have hgoes : ∀ item ∈ sampleBatch.items, ¬ (sampleBatch.lookup item).breaks := by
    decide +kernel
  obtain ⟨results, successful, failed, hreply, hsum, hall⟩ :=
    (@answer_of_batch _ [] _ _ asks_sampleBatchRequest collisionFree_sampleBatch).1
      (by decide +kernel) hgoes
  refine ⟨asks_sampleBatchRequest, collisionFree_sampleBatch, results, successful, failed,
    hreply, hsum, hall.imp ?_⟩
  intro item result hagrees
  exact hagrees _ (OptimizeRequest.asks_toRequest _)

end SvgKit.Service
