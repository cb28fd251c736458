import Mathlib.Data.Finset.Dedup
import Mathlib.Data.Finset.Card
import Mathlib.Data.List.Dedup
import Mathlib.Data.List.DropRight
import SvgKit.Proofs.Cache.Lru

/-! A bounded store holds the keys that were used last. The keys of a history stand in it once
each, in the order of their last uses, and those at the end of that order are kept.
-/

namespace SvgKit.Lru

-----------------------------------------------------------------------------------------
-- Histories of uses
-----------------------------------------------------------------------------------------

section Histories

variable {κ : Type} {keys uses before after : List κ} {key : κ} {n : Nat}

theorem rtake_of_length_le (h : keys.length ≤ n) : keys.rtake n = keys := by
  rw [List.rtake, Nat.sub_eq_zero_of_le h, List.drop_zero]

theorem rtake_append (h : n ≤ after.length) : (before ++ after).rtake n = after.rtake n := by
  have hcut : (before ++ after).length - n = before.length + (after.length - n) := by
    rw [List.length_append]
    omega
  rw [List.rtake, List.rtake, hcut, ← List.drop_drop, List.drop_left]

theorem rtake_map {β : Type} (f : κ → β) (keys : List κ) (n : Nat)
    : (keys.map f).rtake n = (keys.rtake n).map f := by
  rw [List.rtake, List.rtake, List.length_map, List.map_drop]

theorem mem_rtake_iff (h : (before ++ key :: after).Nodup)
    : key ∈ (before ++ key :: after).rtake n ↔ after.length < n := by
  constructor
  · intro hmem
    by_contra hle
    have hafter : n ≤ after.length := by omega
    have hsplit : before ++ key :: after = (before ++ [key]) ++ after := by simp
    rw [hsplit, rtake_append hafter] at hmem
    have hnot : key ∉ after := (List.nodup_cons.mp (List.nodup_append.mp h).2.1).1
    exact hnot (List.mem_of_mem_drop hmem)
  · intro hlt
    have hdrop : (before ++ key :: after).length - n ≤ before.length := by
      simp only [List.length_append, List.length_cons]
      omega
    rw [List.rtake, List.drop_append_of_le_length hdrop]
    simp

variable [DecidableEq κ]

/-- The keys when a key is used once more: it moves behind all others. -/
def touch (keys : List κ) (key : κ) : List κ := keys.filter (· ≠ key) ++ [key]

theorem dedup_concat (uses : List κ) (key : κ)
    : (uses ++ [key]).dedup = touch uses.dedup key := by
  unfold touch
  induction uses with
  | nil => simp
  | cons first uses ih =>
      by_cases hmem : first ∈ uses
      · rw [List.cons_append, List.dedup_cons_of_mem (List.mem_append_left _ hmem),
          List.dedup_cons_of_mem hmem, ih]
      · by_cases heq : first = key
        · subst heq
          rw [List.cons_append, List.dedup_cons_of_mem (by simp),
            List.dedup_cons_of_notMem hmem, ih]
          simp
        · have hmore : first ∉ uses ++ [key] := by simp [hmem, heq]
          rw [List.cons_append, List.dedup_cons_of_notMem hmore,
            List.dedup_cons_of_notMem hmem, ih]
          simp [heq]

theorem length_le_touch (key : κ) (h : keys.Nodup) : keys.length ≤ (touch keys key).length := by
  have herase := List.le_length_erase (a := key) (l := keys)
  rw [h.erase_eq_filter] at herase
  have hsame : (fun x => x != key) = fun x => decide (x ≠ key) := by
    funext x
    rw [bne, beq_eq_decide, decide_not]
  rw [hsame] at herase
  rw [touch, List.length_append, List.length_singleton]
  omega

theorem length_touch_le (h : key ∈ keys) : (touch keys key).length ≤ keys.length := by
  have hfewer : (keys.filter (· ≠ key)).length < keys.length :=
    List.length_filter_lt_length_iff_exists.mpr ⟨key, h, by simp⟩
  rw [touch, List.length_append, List.length_singleton]
  omega

/-- What is left out of the last keys does not come back when one of all keys is used. -/
theorem rtake_touch (h : keys.Nodup)
    : (touch (keys.rtake n) key).rtake n = (touch keys key).rtake n := by
  rcases Nat.lt_or_ge n keys.length with hlt | hle
  · have hlength : (keys.rtake n).length = n := by
      rw [List.rtake, List.length_drop]
      omega
    have hsuffix : keys.rtake n <:+ keys := List.drop_suffix _ _
    have hlong : n ≤ (touch (keys.rtake n) key).length := by
      have := length_le_touch key (h.sublist hsuffix.sublist)
      omega
    obtain ⟨older, holder⟩ := hsuffix
    have hsplit : touch keys key = older.filter (· ≠ key) ++ touch (keys.rtake n) key := by
      conv_lhs => rw [← holder]
      rw [touch, touch, List.filter_append, List.append_assoc]
    rw [hsplit, rtake_append hlong]
  · rw [rtake_of_length_le hle]

/-- The order of last uses ends with the distinct keys behind a last use. -/
theorem exists_dedup_append (before : List κ) (h : key ∉ after)
    : ∃ older, (before ++ key :: after).dedup = older ++ key :: after.dedup := by
  obtain ⟨older, holder⟩ := List.suffix_union_right before (key :: after).dedup
  refine ⟨older, ?_⟩
  rw [List.dedup_append, ← holder, List.dedup_cons_of_notMem h]

/-- A key is among the last `n` ones if fewer others were used since it was. -/
theorem mem_rtake_dedup_iff
    : key ∈ uses.dedup.rtake n
      ↔ ∃ before after, uses = before ++ key :: after ∧ key ∉ after
        ∧ after.toFinset.card < n := by
  constructor
  · intro hmem
    have huse : key ∈ uses.reverse :=
      List.mem_reverse.mpr (List.mem_dedup.mp (List.mem_of_mem_drop hmem))
    obtain ⟨later, earlier, hsplit, hnot⟩ := List.eq_append_cons_of_mem huse
    have huses : uses = earlier.reverse ++ key :: later.reverse := by
      simpa using congrArg List.reverse hsplit
    have hlast : key ∉ later.reverse := by simpa using hnot
    refine ⟨earlier.reverse, later.reverse, huses, hlast, ?_⟩
    obtain ⟨older, hdedup⟩ := exists_dedup_append earlier.reverse hlast
    rw [huses, hdedup] at hmem
    rw [List.card_toFinset]
    exact (mem_rtake_iff (hdedup ▸ List.nodup_dedup _)).mp hmem
  · rintro ⟨before, after, rfl, hlast, hfew⟩
    obtain ⟨older, hdedup⟩ := exists_dedup_append before hlast
    rw [List.card_toFinset] at hfew
    rw [hdedup]
    exact (mem_rtake_iff (hdedup ▸ List.nodup_dedup _)).mpr hfew

end Histories

-----------------------------------------------------------------------------------------
-- The keys of a store
-----------------------------------------------------------------------------------------

section Stores

variable {κ α : Type} [DecidableEq κ] {c next : Lru κ α} {key : κ}

theorem keys_others (c : Lru κ α) (key : κ)
    : (c.others key).map (·.1) = c.keys.filter (· ≠ key) := by
  rw [keys, others, List.filter_map]
  rfl

/-- A key that is found has been used once more. -/
theorem keys_get {value : α} (h : c.get key = (some value, next))
    : next.keys = touch c.keys key := by
  unfold get at h
  split at h
  · cases h
  · cases h
    rw [keys, List.map_append, keys_others, touch, List.map_singleton]

/-- A key that takes in a value has been used once more, and the last keys stay. -/
theorem keys_set (c : Lru κ α) (key : κ) (value : Option α)
    : (c.set key value).keys = (touch c.keys key).rtake c.capacity := by
  have hkeys : (c.others key ++ [(key, value)]).map (·.1) = touch c.keys key := by
    rw [List.map_append, keys_others, touch, List.map_singleton]
  rw [keys, set, List.rtake, ← hkeys, List.length_map, List.map_drop]

theorem capacity_get (c : Lru κ α) (key : κ) : (c.get key).2.capacity = c.capacity := by
  unfold get
  split <;> rfl

/-- When all entries hold values, the keys are what can be found; looking for others changes
nothing.
-/
theorem get_cases (key : κ) (hall : ∀ entry ∈ c.entries, entry.2.isSome)
    : (key ∈ c.keys ∧ ∃ value next, c.get key = (some value, next))
      ∨ (key ∉ c.keys ∧ c.get key = (none, c)) := by
  cases hfound : c.entries.lookup key with
  | none =>
      refine .inr ⟨?_, by simp only [get, hfound]⟩
      intro hmem
      obtain ⟨⟨key', value⟩, hentry, rfl⟩ := List.mem_map.mp hmem
      rw [List.lookup_eq_none_iff] at hfound
      simpa using hfound _ hentry
  | some value =>
      have hentry : (key, value) ∈ c.entries := mem_of_lookup hfound
      obtain ⟨held, rfl⟩ := Option.isSome_iff_exists.mp (hall _ hentry)
      refine .inl ⟨List.mem_map.mpr ⟨_, hentry, rfl⟩, held, ?_⟩
      exact ⟨{ c with entries := c.others key ++ [(key, some held)] }, by simp only [get, hfound]⟩

end Stores

end SvgKit.Lru
