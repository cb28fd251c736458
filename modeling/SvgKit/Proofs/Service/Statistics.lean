import SvgKit.Proofs.Service.Run

/-! The statistics of the cache are those of the lookups since it was cleared last. -/

namespace SvgKit.Service

variable {known made : List Lookup} {cache : Results}

/-- The statistics of lookups that were made from an empty cache on. -/
def statistics (made : List Lookup) : Json :=
  .object
    [ ("hits", .int (hitCount made)),
      ("misses", .int (made.length - hitCount made)),
      ("size", .int (min maxResults (uses made).toFinset.card : Nat)),
      ("max_size", .int maxResults),
      ("hit_rate", .string (Optimize.Metrics.percent (hitCount made) made.length)) ]

theorem Results.Reflects.statsJson_eq (h : cache.Reflects known made)
    : cache.statsJson = statistics made := by
  have hmisses : (cache.misses : Int) = made.length - hitCount made := by
    have := h.total
    rw [h.hits] at this
    omega
  rw [Cache.statsJson, statistics, Cache.hitRate, h.total, hmisses, h.hits, h.capacity,
    h.length_eq]

/-- A lookup in the cache finds a result if and only if it is a hit after the ones before it. -/
theorem Results.Reflects.isSome_get_iff (hk : CollisionFree (known.map Lookup.keyText))
    (h : cache.Reflects known made) {l : Lookup} (hl : l ∈ known)
    : (cache.get l.content (some (resultOptions l.camelCase l.sanitize))).1.isSome
      ↔ IsHit made l := by
  have hkey : cacheKey l.content (some (resultOptions l.camelCase l.sanitize)) = l.key := rfl
  rw [← h.mem_keys_iff hk hl, Cache.get, hkey]
  rcases Lru.get_cases l.key h.isSome_of_mem
    with ⟨hmem, value, store, hget⟩ | ⟨hmem, hget⟩
  · simp [hget, hmem]
  · simp [hget, hmem]

/-- After all requests to a new service, the counters add up to the lookups that were made since
the cache was cleared last, the hits are those among them that follow a success of the same
triple with fewer than a thousand other ones behind it, and the size is the number of distinct
triples that succeeded, up to a thousand. The statistics say so, and the next lookup is a hit in
the same case.
-/
theorem statistics_of_requests {requests : List Request}
    (hk : CollisionFree ((requests.flatMap Request.lookups).map Lookup.keyText))
    : (Results.after requests).hits + (Results.after requests).misses
        = (lookupsSinceClear requests).length
      ∧ (Results.after requests).hits = hitCount (lookupsSinceClear requests)
      ∧ (Results.after requests).store.size
        = min maxResults (uses (lookupsSinceClear requests)).toFinset.card
      ∧ (∀ r : Request, r.asksStatistics
        → (answer r (Results.after requests)).1
          = .success (statistics (lookupsSinceClear requests)))
      ∧ ∀ l : Lookup, CollisionFree ((l :: requests.flatMap Request.lookups).map Lookup.keyText)
        → (((Results.after requests).get l.content
            (some (resultOptions l.camelCase l.sanitize))).1.isSome
          ↔ IsHit (lookupsSinceClear requests) l) := by
  have h := Results.reflects_after hk _ (List.Subset.refl _)
  refine ⟨h.total, h.hits, h.length_eq, ?_, ?_⟩
  · intro r hr
    have hroute : r.route? = some .cacheStats :=
      Request.route?_eq_some_iff.mpr ⟨hr.1, hr.2.symm⟩
    rw [answer_of_route? hroute]
    exact congrArg Reply.success h.statsJson_eq
  · intro l hl
    have hmore := Results.reflects_after hl _ (List.subset_cons_self l _)
    exact hmore.isSome_get_iff hl List.mem_cons_self

/-- The batch is reached after a clearing; its last document finds the result of its first one,
and the one between them fails.
-/
private def sampleHistory : List Request :=
  [⟨"POST", "/api/optimize", some (.object [("content", .string "<svg/>")])⟩,
    ⟨"DELETE", "/api/cache", none⟩,
    ⟨"POST", "/api/optimize/batch",
      some (.object
        [("items", .array
          [.object [("content", .string "<svg/>")], .object [("content", .string "none")],
            .object [("content", .string " <svg/>")]])])⟩]

private theorem lookupsSinceClear_sampleHistory
    : lookupsSinceClear sampleHistory
      = [⟨"<svg/>", true, true⟩, ⟨"none", true, true⟩, ⟨" <svg/>", true, true⟩] := by
  decide +kernel

private theorem keyTexts_sampleHistory
    : (sampleHistory.flatMap Request.lookups).map Lookup.keyText
      = [("<svg/>|\x7b\"camel_case\":true,\"sanitize\":true\x7d" : Text),
        "<svg/>|\x7b\"camel_case\":true,\"sanitize\":true\x7d",
        "none|\x7b\"camel_case\":true,\"sanitize\":true\x7d",
        "<svg/>|\x7b\"camel_case\":true,\"sanitize\":true\x7d"] := by
  cbv

private theorem collisionFree_sampleHistory
    : CollisionFree ((sampleHistory.flatMap Request.lookups).map Lookup.keyText) := by
  rw [keyTexts_sampleHistory]
  unfold CollisionFree
  decide +kernel

theorem statistics_of_requests_sampleHistory
    : CollisionFree ((sampleHistory.flatMap Request.lookups).map Lookup.keyText)
      ∧ (Results.after sampleHistory).hits + (Results.after sampleHistory).misses = 3
      ∧ (Results.after sampleHistory).hits = 1
      ∧ (Results.after sampleHistory).store.size = 1 := by
  obtain ⟨htotal, hhits, hsize, -⟩ := statistics_of_requests collisionFree_sampleHistory
  rw [lookupsSinceClear_sampleHistory] at htotal hhits hsize
  refine ⟨collisionFree_sampleHistory, htotal, hhits.trans ?_, hsize.trans ?_⟩
  · decide +kernel
  · decide +kernel

end SvgKit.Service
