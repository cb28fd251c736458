import SvgKit.Proofs.Cache.Recency
import SvgKit.Proofs.Service.Transparency
import SvgKit.Proofs.Text.Splitting

/-! What the cache of the service holds after any history. The lookups that requests make since
the cache was cleared last determine the keys that it holds, in their order, and its counters.
-/

namespace SvgKit.Service

open Optimize (nameOr)

-----------------------------------------------------------------------------------------
-- Lookups and their results
-----------------------------------------------------------------------------------------

namespace Lookup

variable {known : List Lookup} {l l' : Lookup}

/-- The lookup by what identifies its result: the content without the blanks at its ends, and
the options.
-/
def triple (l : Lookup) : Lookup := { l with content := Text.trim l.content }

theorem key_triple (l : Lookup) : l.triple.key = l.key := by
  have htext : l.triple.keyText = l.keyText := by
    simp only [keyText, triple, cacheKeyText, Text.trim_trim]
  rw [key, key, htext]

theorem triple_eq_of_key_eq (hk : CollisionFree (known.map keyText)) (hl : l ∈ known)
    (hl' : l' ∈ known) (h : l.key = l'.key)
    : l.triple = l'.triple := by
  have htext := hk _ (List.mem_map_of_mem hl) _ (List.mem_map_of_mem hl') h
  obtain ⟨hcontent, hcase, hsanitize⟩ := eq_of_keyText_eq htext
  rw [triple, triple, hcontent, hcase, hsanitize]

/-- The optimization gives a result. -/
def succeeds (l : Lookup) : Bool := (l.run none).isOk

/-- The optimization fails in a way that has no status. -/
def breaks (l : Lookup) : Bool :=
  match l.run none with
  | .ok _ => false
  | .error failure => failure.kind.status?.isNone

theorem succeeds_iff (filename : Option Text)
    : l.succeeds ↔ ∃ result, l.run filename = .ok result := by
  rw [succeeds, l.run_filename filename]
  cases l.run none <;> simp [Except.isOk, Except.toBool, Except.map]

end Lookup

-----------------------------------------------------------------------------------------
-- Hits
-----------------------------------------------------------------------------------------

/-- The number of results that the cache of the service holds at most. -/
def maxResults : Nat := 1000

/-- What lookups used with success, once for each of them. -/
def uses (made : List Lookup) : List Lookup := (made.filter Lookup.succeeds).map Lookup.triple

/-- After the lookups that were made, one more finds a result: there was a last one of the same
triple that succeeded, and fewer than the greatest number of other triples were used with
success behind it.
-/
def IsHit (made : List Lookup) (l : Lookup) : Prop :=
  ∃ i : Fin made.length,
    made[i].succeeds
      ∧ made[i].triple = l.triple
      ∧ l.triple ∉ uses (made.drop (i + 1))
      ∧ (uses (made.drop (i + 1))).toFinset.card < maxResults

instance (made : List Lookup) (l : Lookup) : Decidable (IsHit made l) :=
  inferInstanceAs (Decidable (∃ _ : Fin made.length, _))

/-- The number of lookups that found a result. -/
def hitCount (made : List Lookup) : Nat :=
  (List.range made.length).countP fun i => made[i]?.any fun l => IsHit (made.take i) l

variable {known made : List Lookup} {l : Lookup}

theorem uses_append (made more : List Lookup) : uses (made ++ more) = uses made ++ uses more := by
  rw [uses, List.filter_append, List.map_append]
  rfl

theorem uses_concat (made : List Lookup) (l : Lookup)
    : uses (made ++ [l]) = if l.succeeds then uses made ++ [l.triple] else uses made := by
  rw [uses_append]
  by_cases h : l.succeeds <;> simp [uses, h]

/-- The triples used last are those of which a lookup is a hit. -/
theorem isHit_iff_mem : IsHit made l ↔ l.triple ∈ (uses made).dedup.rtake maxResults := by
  rw [Lru.mem_rtake_dedup_iff]
  constructor
  · rintro ⟨i, hok, htriple, hlast, hfew⟩
    refine ⟨uses (made.take i), uses (made.drop (i + 1)), ?_, hlast, hfew⟩
    have huse : uses [made[i]] = [l.triple] := by
      rw [uses, List.filter_cons_of_pos hok, ← htriple]
      rfl
    have hdrop : made.drop i = [made[i]] ++ made.drop (i + 1) :=
      (List.getElem_cons_drop i.isLt).symm
    rw [← List.singleton_append, ← huse, ← uses_append, ← hdrop, ← uses_append,
      List.take_append_drop]
  · rintro ⟨before, after, huses, hlast, hfew⟩
    obtain ⟨first, rest, hmade, -, hrest⟩ := List.map_eq_append_iff.mp huses
    obtain ⟨earlier, later, rfl, -, rfl⟩ := List.filter_eq_append_iff.mp hmade
    obtain ⟨last, rest, hlater, htriple, rfl⟩ := List.map_eq_cons_iff.mp hrest
    obtain ⟨between, after, rfl, hnone, hok, rfl⟩ := List.filter_eq_cons_iff.mp hlater
    have hlength : earlier.length + between.length
        < (earlier ++ (between ++ last :: after)).length := by
      simp
    refine ⟨⟨earlier.length + between.length, hlength⟩, ?_⟩
    have hget : (earlier ++ (between ++ last :: after))[earlier.length + between.length]
        = last := by
      simp
    have hdrop : (earlier ++ (between ++ last :: after)).drop
        (earlier.length + between.length + 1) = after := by
      rw [← List.append_assoc, ← List.length_append, ← List.drop_drop, List.drop_left]
      rfl
    simp only [Fin.getElem_fin, hget, hdrop]
    exact ⟨hok, htriple, hlast, hfew⟩

/-- What shares its triple with a lookup that succeeded succeeds as well. -/
theorem IsHit.succeeds (h : IsHit made l) : l.succeeds := by
  obtain ⟨i, hok, htriple, -⟩ := h
  obtain ⟨hcontent, hcase, hsanitize⟩ := Lookup.mk.inj htriple
  rwa [Lookup.succeeds, Lookup.run_eq hcontent hcase hsanitize] at hok

theorem hitCount_concat (made : List Lookup) (l : Lookup)
    : hitCount (made ++ [l]) = hitCount made + if IsHit made l then 1 else 0 := by
  have hbefore {i : Nat} (hi : i ∈ List.range made.length)
      : (((made ++ [l])[i]?.any fun l' => IsHit ((made ++ [l]).take i) l') = true)
        ↔ (made[i]?.any fun l' => IsHit (made.take i) l') = true := by
    have hi := List.mem_range.mp hi
    rw [List.getElem?_append_left hi, List.take_append_of_le_length hi.le]
  rw [hitCount, hitCount, List.length_append, List.length_singleton, List.range_succ,
    List.countP_append, List.countP_congr fun i hi => hbefore hi]
  simp [List.countP_singleton]

-----------------------------------------------------------------------------------------
-- Caches and histories
-----------------------------------------------------------------------------------------

/-- The cache is what the lookups that were made since it was empty have left. -/
structure Results.Reflects (known made : List Lookup) (cache : Results) : Prop where
  subset : made ⊆ known
  faithful : cache.Faithful known
  capacity : cache.store.capacity = maxResults
  keys : cache.store.keys = ((uses made).dedup.rtake maxResults).map Lookup.key
  hits : cache.hits = hitCount made
  total : cache.hits + cache.misses = made.length

theorem Results.reflects_empty {known : List Lookup} {cache : Results}
    (hc : cache.store.capacity = maxResults) (he : cache.store.entries = [])
    (hh : cache.hits = 0) (hm : cache.misses = 0)
    : cache.Reflects known [] := by
  refine ⟨List.nil_subset _, ?_, hc, ?_, hh, by rw [hh, hm, List.length_nil]⟩
  · intro key value hmem
    rw [he] at hmem
    cases hmem
  · rw [Lru.keys, he]
    rfl

namespace Results.Reflects

variable {cache : Results}

theorem length_eq (h : cache.Reflects known made)
    : cache.store.size = min maxResults (uses made).toFinset.card := by
  have hkeys := congrArg List.length h.keys
  rw [Lru.keys, List.length_map, List.length_map, List.rtake, List.length_drop] at hkeys
  rw [Lru.size, List.card_toFinset]
  omega

theorem subset_concat (h : cache.Reflects known made) (hl : l ∈ known) : made ++ [l] ⊆ known :=
  List.append_subset.mpr ⟨h.subset, by simpa using hl⟩

theorem isSome_of_mem (h : cache.Reflects known made)
    : ∀ entry ∈ cache.store.entries, entry.2.isSome := by
  rintro ⟨key, value⟩ hmem
  obtain ⟨_, _, _, result, rfl, _⟩ := h.faithful key value hmem
  rfl

section

variable (hk : CollisionFree (known.map Lookup.keyText)) (h : cache.Reflects known made)
include hk h

theorem triple_inj {t : Lookup} (ht : t ∈ uses made) (hl : l ∈ known)
    : t.key = l.key ↔ t = l.triple := by
  constructor
  · intro hkey
    obtain ⟨l', hmem, rfl⟩ := List.mem_map.mp ht
    rw [Lookup.key_triple] at hkey
    exact Lookup.triple_eq_of_key_eq hk (h.subset (List.mem_of_mem_filter hmem)) hl hkey
  · rintro rfl
    exact l.key_triple

theorem mem_keys_iff (hl : l ∈ known) : l.key ∈ cache.store.keys ↔ IsHit made l := by
  rw [h.keys, isHit_iff_mem, List.mem_map]
  constructor
  · rintro ⟨t, ht, hkey⟩
    have huse : t ∈ uses made := List.mem_dedup.mp (List.mem_of_mem_drop ht)
    exact (h.triple_inj hk huse hl).mp hkey ▸ ht
  · intro ht
    exact ⟨l.triple, ht, l.key_triple⟩

/-- The keys when a lookup succeeds, whether it finds its result or stores it. -/
theorem keys_concat (hl : l ∈ known) (hs : l.succeeds)
    : (Lru.touch cache.store.keys l.key).rtake maxResults
      = ((uses (made ++ [l])).dedup.rtake maxResults).map Lookup.key := by
  have hfilter : ((uses made).dedup.rtake maxResults).filter (fun t => t.key ≠ l.key)
      = ((uses made).dedup.rtake maxResults).filter (· ≠ l.triple) := by
    apply List.filter_congr
    intro t ht
    have huse : t ∈ uses made := List.mem_dedup.mp (List.mem_of_mem_drop ht)
    simp only [h.triple_inj hk huse hl, ne_eq]
  have htouch : Lru.touch cache.store.keys l.key
      = (Lru.touch ((uses made).dedup.rtake maxResults) l.triple).map Lookup.key := by
    rw [Lru.touch, Lru.touch, h.keys, List.filter_map, List.map_append, List.map_singleton,
      l.key_triple, ← hfilter]
    rfl
  rw [htouch, uses_concat, if_pos hs, Lru.dedup_concat, ← Lru.rtake_touch (List.nodup_dedup _),
    Lru.rtake_map]

/-- A lookup that finds its result moves its key behind the others and counts as a hit. -/
theorem of_found {value : Optimize.Result} {store : Lru Text Optimize.Result} (hl : l ∈ known)
    (hmem : l.key ∈ cache.store.keys) (hget : cache.store.get l.key = (some value, store))
    (hf : Results.Faithful known { cache with store, hits := cache.hits + 1 })
    : Results.Reflects known (made ++ [l]) { cache with store, hits := cache.hits + 1 } := by
  have hhit : IsHit made l := (h.mem_keys_iff hk hl).mp hmem
  have hsize : (Lru.touch cache.store.keys l.key).length ≤ maxResults := by
    have hkeys := congrArg List.length h.keys
    rw [List.length_map, List.rtake, List.length_drop] at hkeys
    have := Lru.length_touch_le hmem
    omega
  have hcapacity := Lru.capacity_get cache.store l.key
  rw [hget] at hcapacity
  have htotal := h.total
  refine ⟨h.subset_concat hl, hf, hcapacity.trans h.capacity, ?_, ?_, ?_⟩
  · rw [Lru.keys_get hget, ← h.keys_concat hk hl hhit.succeeds, Lru.rtake_of_length_le hsize]
  · rw [hitCount_concat, if_pos hhit, ← h.hits]
  · rw [List.length_append, List.length_singleton, ← htotal]
    dsimp only
    omega

/-- A lookup that finds nothing counts as a miss; the keys are what became of them. -/
theorem of_missed {store : Lru Text Optimize.Result} (hl : l ∈ known)
    (hmem : l.key ∉ cache.store.keys) (hcapacity : store.capacity = cache.store.capacity)
    (hkeys : store.keys = ((uses (made ++ [l])).dedup.rtake maxResults).map Lookup.key)
    (hf : Results.Faithful known { cache with store, misses := cache.misses + 1 })
    : Results.Reflects known (made ++ [l]) { cache with store, misses := cache.misses + 1 } := by
  have hmiss : ¬ IsHit made l := fun hhit => hmem ((h.mem_keys_iff hk hl).mpr hhit)
  have htotal := h.total
  refine ⟨h.subset_concat hl, hf, hcapacity.trans h.capacity, hkeys, ?_, ?_⟩
  · rw [hitCount_concat, if_neg hmiss]
    exact h.hits
  · rw [List.length_append, List.length_singleton, ← htotal]
    dsimp only
    omega

/-- A lookup leaves what the history with it determines. -/
theorem optimizeCached (hl : l ∈ known) (filename : Option Text)
    : Results.Reflects known (made ++ [l])
        (optimizeCached l.content filename l.camelCase l.sanitize cache).2 := by
  have hf := (optimizeCached_faithful hk hl h.faithful filename).2
  have hkey : cacheKey l.content (some (resultOptions l.camelCase l.sanitize)) = l.key := rfl
  have hrun : Optimize.run {
      content := l.content
      filename
      camelCase := l.camelCase
      sanitize := l.sanitize
      limit := some maxContentSize } = l.run filename := rfl
  unfold Service.optimizeCached at hf ⊢
  simp only [Cache.get, hkey, hrun] at hf ⊢
  rcases Lru.get_cases l.key h.isSome_of_mem
    with ⟨hmem, value, store, hget⟩ | ⟨hmem, hget⟩
  · simp only [hget] at hf ⊢
    exact h.of_found hk hl hmem hget hf
  · simp only [hget] at hf ⊢
    cases hoptimized : l.run filename with
    | error failure =>
        simp only [hoptimized] at hf ⊢
        have hfails : ¬ l.succeeds := by
          rw [Lookup.succeeds_iff filename, hoptimized]
          simp
        refine h.of_missed hk hl hmem rfl ?_ hf
        rw [uses_concat, if_neg hfails, h.keys]
    | ok result =>
        simp only [hoptimized] at hf ⊢
        have hsucceeds : l.succeeds := (Lookup.succeeds_iff filename).mpr ⟨result, hoptimized⟩
        refine h.of_missed hk hl hmem rfl ?_ hf
        rw [← h.keys_concat hk hl hsucceeds, ← h.capacity]
        exact Lru.keys_set _ _ _

end

end Results.Reflects

end SvgKit.Service
