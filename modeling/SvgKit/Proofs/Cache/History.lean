import SvgKit.Proofs.Cache.Recency

/-! What a bounded store holds after any operations. The operations made so far determine its keys,
their order and their values.
-/

namespace SvgKit.Lru

open scoped List

variable {κ α : Type} [DecidableEq κ]

-----------------------------------------------------------------------------------------
-- Operations
-----------------------------------------------------------------------------------------

/-- An operation on a bounded store. -/
inductive Operation (κ α : Type) where
  | set (key : κ) (value : Option α)
  | get (key : κ)
  | has (key : κ)
  | delete (key : κ)
  | clear
  deriving Repr, DecidableEq

/-- The store after an operation. -/
def apply (c : Lru κ α) : Operation κ α → Lru κ α
  | .set key value => c.set key value
  | .get key => (c.get key).2
  | .has _ => c
  | .delete key => (c.delete key).2
  | .clear => c.clear

/-- The store after several operations. -/
def run (c : Lru κ α) (ops : List (Operation κ α)) : Lru κ α := ops.foldl apply c

/-- The key that an operation uses: one that takes in a value or is found. -/
def used? (c : Lru κ α) : Operation κ α → Option κ
  | .set key _ => some key
  | .get key => if c.has key then some key else none
  | _ => none

/-- The keys that operations use, one after the other. -/
def uses (c : Lru κ α) : List (Operation κ α) → List κ
  | [] => []
  | op :: ops => (c.used? op).toList ++ uses (c.apply op) ops

/-- What was stored under a key before the operation is not found behind it. -/
def Operation.discards (key : κ) : Operation κ α → Bool
  | .set key' _ => key' = key
  | .delete key' => key' = key
  | .clear => true
  | _ => false

/-- The operation removes all entries. -/
def Operation.isClear : Operation κ α → Bool
  | .clear => true
  | _ => false

/-- The operations behind the last one that removed all entries. -/
def sinceClear (ops : List (Operation κ α)) : List (Operation κ α) := ops.rtakeWhile (!·.isClear)

variable {c : Lru κ α} {op : Operation κ α} {ops : List (Operation κ α)} {key : κ}

theorem run_concat (c : Lru κ α) (ops : List (Operation κ α)) (op : Operation κ α)
    : c.run (ops ++ [op]) = (c.run ops).apply op := by
  rw [run, List.foldl_append]
  rfl

theorem capacity_apply (c : Lru κ α) (op : Operation κ α) : (c.apply op).capacity = c.capacity := by
  cases op with
  | get key => exact capacity_get c key
  | _ => rfl

theorem capacity_run (c : Lru κ α) (ops : List (Operation κ α))
    : (c.run ops).capacity = c.capacity := by
  induction ops generalizing c with
  | nil => rfl
  | cons op ops ih => exact (ih (c.apply op)).trans (capacity_apply c op)

/-- A key is present exactly if it is found. -/
theorem has_iff : c.has key ↔ ∃ value, c.entries.lookup key = some value := by
  rw [has, List.contains_iff_mem]
  constructor
  · intro hmem
    obtain ⟨⟨key', value⟩, hentry, rfl⟩ := List.mem_map.mp hmem
    rw [← Option.isSome_iff_exists, Option.isSome_iff_ne_none]
    intro hnone
    simpa using List.lookup_eq_none_iff.mp hnone _ hentry
  · rintro ⟨value, hvalue⟩
    exact List.mem_map.mpr ⟨_, mem_of_lookup hvalue, rfl⟩

theorem get_of_has (h : c.has key)
    : ∃ value, (key, value) ∈ c.entries
      ∧ c.get key = (value, { c with entries := c.others key ++ [(key, value)] }) := by
  obtain ⟨value, hvalue⟩ := has_iff.mp h
  exact ⟨value, mem_of_lookup hvalue, by simp only [get, hvalue]⟩

theorem get_of_not_has (h : ¬ c.has key) : c.get key = (none, c) := by
  have hnone : c.entries.lookup key = none := by
    by_contra hsome
    exact h (has_iff.mpr (Option.ne_none_iff_exists'.mp hsome))
  simp only [get, hnone]

-----------------------------------------------------------------------------------------
-- The order of the keys
-----------------------------------------------------------------------------------------

theorem touch_sublist {keys more : List κ} (h : keys <+ more) (key : κ)
    : touch keys key <+ touch more key :=
  (h.filter _).append_right _

theorem keys_get_of_has (h : c.has key) : (c.get key).2.keys = touch c.keys key := by
  obtain ⟨value, -, hget⟩ := get_of_has h
  rw [hget, keys, List.map_append, keys_others, touch, List.map_singleton]

/-- An operation leaves the keys in the order of their last uses, and not too many of them. -/
theorem keys_apply_sublist {used : List κ} (hkeys : c.keys <+ used.dedup)
    (hlength : c.keys.length ≤ c.capacity) (op : Operation κ α)
    : (c.apply op).keys <+ (used ++ (c.used? op).toList).dedup
      ∧ (c.apply op).keys.length ≤ c.capacity := by
  cases op with
  | set key value =>
      rw [apply, used?, Option.toList_some, dedup_concat, keys_set]
      refine ⟨(List.drop_sublist _ _).trans (touch_sublist hkeys key), ?_⟩
      rw [List.rtake, List.length_drop]
      omega
  | get key =>
      rw [apply, used?]
      by_cases h : c.has key
      · rw [if_pos h, Option.toList_some, dedup_concat, keys_get_of_has h]
        have hmem : key ∈ c.keys := List.contains_iff_mem.mp h
        exact ⟨touch_sublist hkeys key, (length_touch_le hmem).trans hlength⟩
      · rw [if_neg h, get_of_not_has h]
        simpa using ⟨hkeys, hlength⟩
  | has key => simpa [used?, apply] using ⟨hkeys, hlength⟩
  | delete key =>
      have hfewer : (c.delete key).2.keys <+ c.keys := by
        rw [delete, keys, keys_others]
        exact List.filter_sublist
      have hnone : c.used? (.delete key) = none := rfl
      rw [apply, hnone, Option.toList_none, List.append_nil]
      exact ⟨hfewer.trans hkeys, hfewer.length_le.trans hlength⟩
  | clear => simp [apply, used?, clear, keys]

/-- So do several operations, by induction over them. -/
theorem keys_run_sublist (used : List κ) (hkeys : c.keys <+ used.dedup)
    (hlength : c.keys.length ≤ c.capacity) (ops : List (Operation κ α))
    : (c.run ops).keys <+ (used ++ c.uses ops).dedup ∧ (c.run ops).keys.length ≤ c.capacity := by
  induction ops generalizing c used with
  | nil => simpa [run, uses] using ⟨hkeys, hlength⟩
  | cons op ops ih =>
      obtain ⟨hkeys', hlength'⟩ := keys_apply_sublist hkeys hlength op
      rw [← capacity_apply c op] at hlength'
      have hrest := ih _ hkeys' hlength'
      rwa [capacity_apply, List.append_assoc] at hrest

/-- Some keys of a list without duplicates are the list without the others. -/
theorem eq_filter_of_sublist {keys more : List κ} (h : keys <+ more) (hnodup : more.Nodup)
    : keys = more.filter (keys.contains ·) := by
  induction h with
  | slnil => rfl
  | @cons keys more key hrest ih =>
      obtain ⟨hnot, hnodup⟩ := List.nodup_cons.mp hnodup
      have habsent : key ∉ keys := fun hmem => hnot (hrest.subset hmem)
      rw [List.filter_cons_of_neg (by simpa using habsent)]
      exact ih hnodup
  | @cons_cons keys more key hrest ih =>
      obtain ⟨hnot, hnodup⟩ := List.nodup_cons.mp hnodup
      have hsame : more.filter ((key :: keys).contains ·) = more.filter (keys.contains ·) := by
        apply List.filter_congr
        intro key' hmem
        have hne : key' ≠ key := fun heq => hnot (heq ▸ hmem)
        simp [hne]
      rw [List.filter_cons_of_pos (by simp), hsame, ← ih hnodup]

-----------------------------------------------------------------------------------------
-- The values
-----------------------------------------------------------------------------------------

/-- An entry behind an operation was stored by it, or it stood in the store and has not been
discarded.
-/
theorem mem_apply {entry : κ × Option α} (h : entry ∈ (c.apply op).entries)
    : op = .set entry.1 entry.2 ∨ entry ∈ c.entries ∧ op.discards entry.1 = false := by
  cases op with
  | set key value =>
      rcases List.mem_append.mp (List.mem_of_mem_drop h) with hmem | hmem
      · have hne : entry.1 ≠ key := by simpa using (List.mem_filter.mp hmem).2
        exact .inr ⟨mem_of_mem_others hmem, by simpa [Operation.discards] using hne.symm⟩
      · obtain rfl := List.mem_singleton.mp hmem
        exact .inl rfl
  | get key => exact .inr ⟨mem_of_mem_get h, rfl⟩
  | has key => exact .inr ⟨h, rfl⟩
  | delete key =>
      have hne : entry.1 ≠ key := by simpa using (List.mem_filter.mp h).2
      exact .inr ⟨mem_of_mem_others h, by simpa [Operation.discards] using hne.symm⟩
  | clear => cases h

/-- The entries of a store that was empty are those that were set and not discarded since, by
induction over the operations from the last one on.
-/
theorem exists_set_of_mem (hempty : c.entries = []) {entry : κ × Option α}
    (h : entry ∈ (c.run ops).entries)
    : ∃ before after, ops = before ++ .set entry.1 entry.2 :: after
      ∧ ∀ op ∈ after, op.discards entry.1 = false := by
  induction ops using List.reverseRecOn with
  | nil =>
      rw [run, List.foldl_nil, hempty] at h
      cases h
  | append_singleton ops op ih =>
      rw [run_concat] at h
      rcases mem_apply h with rfl | ⟨hmem, hkept⟩
      · exact ⟨ops, [], rfl, by simp⟩
      · obtain ⟨before, after, rfl, hafter⟩ := ih hmem
        refine ⟨before, after ++ [op], by simp, ?_⟩
        rw [List.forall_mem_append, List.forall_mem_singleton]
        exact ⟨hafter, hkept⟩

-----------------------------------------------------------------------------------------
-- Runs in which no key is deleted
-----------------------------------------------------------------------------------------

/-- Without deletions the keys are the last ones of those used. -/
theorem keys_apply {used : List κ} (hkeys : c.keys = used.dedup.rtake c.capacity)
    (hdelete : ∀ key, op ≠ .delete key) (hclear : op.isClear = false)
    : (c.apply op).keys = (used ++ (c.used? op).toList).dedup.rtake c.capacity := by
  have hlength : c.keys.length ≤ c.capacity := by
    rw [hkeys, List.rtake, List.length_drop]
    omega
  have htouch (key : κ) : (touch c.keys key).rtake c.capacity
      = (used ++ [key]).dedup.rtake c.capacity := by
    rw [hkeys, rtake_touch (List.nodup_dedup _), dedup_concat]
  cases op with
  | set key value => rw [apply, keys_set, htouch, used?, Option.toList_some]
  | get key =>
      rw [apply, used?]
      by_cases h : c.has key
      · have hmem : key ∈ c.keys := List.contains_iff_mem.mp h
        rw [if_pos h, keys_get_of_has h, Option.toList_some, ← htouch,
          rtake_of_length_le ((length_touch_le hmem).trans hlength)]
      · rw [if_neg h, get_of_not_has h, Option.toList_none, List.append_nil]
        exact hkeys
  | has key => simpa [apply, used?] using hkeys
  | delete key => exact absurd rfl (hdelete key)
  | clear => cases hclear

/-- So they are after several operations, by induction over them. -/
theorem keys_run (used : List κ) (hkeys : c.keys = used.dedup.rtake c.capacity)
    (hdelete : ∀ key, .delete key ∉ ops) (hclear : ∀ op ∈ ops, op.isClear = false)
    : (c.run ops).keys = (used ++ c.uses ops).dedup.rtake c.capacity := by
  induction ops generalizing c used with
  | nil => simpa [run, uses] using hkeys
  | cons op ops ih =>
      rw [List.forall_mem_cons] at hclear
      have hfirst := keys_apply hkeys
        (fun key heq => hdelete key (heq ▸ List.mem_cons_self)) hclear.1
      rw [← capacity_apply c op] at hfirst
      have hrest := ih _ hfirst (fun key hmem => hdelete key (List.mem_cons_of_mem _ hmem)) hclear.2
      rwa [capacity_apply, List.append_assoc] at hrest

/-- Only the operations since the last one that removed all entries matter. -/
theorem run_sinceClear (hempty : c.entries = []) (ops : List (Operation κ α))
    : c.run (sinceClear ops) = c.run ops := by
  induction ops using List.reverseRecOn with
  | nil => rfl
  | append_singleton ops op ih =>
      rw [sinceClear, List.rtakeWhile_concat]
      by_cases hclear : op.isClear
      · cases op with
        | clear =>
            have hcapacity := capacity_run c ops
            rw [run_concat, apply, Lru.clear, hcapacity, ← hempty]
            rfl
        | _ => cases hclear
      · rw [if_pos (by simpa using hclear), run_concat, run_concat, ← sinceClear, ih]

-----------------------------------------------------------------------------------------
-- Runs from an empty store
-----------------------------------------------------------------------------------------

/-- After any operations on a new store its keys are distinct and not too many, they stand in the
order of their last uses, and each has the value that was set last. Where no key was deleted since
all were removed, the keys are those that were set since then and behind whose last uses too few
others were used to replace them.
-/
theorem exists_empty_run {capacity : Int} (h : 1 ≤ capacity) (ops : List (Operation κ α))
    : ∃ start : Lru κ α, empty capacity = .ok start
      ∧ (start.run ops).keys.Nodup
      ∧ (start.run ops).keys.length ≤ capacity
      ∧ (start.run ops).keys = (start.uses ops).dedup.filter ((start.run ops).has ·)
      ∧ (∀ key, (start.run ops).has key →
        ∃ before after, ops = before ++ .set key ((start.run ops).get key).1 :: after
          ∧ ∀ op ∈ after, op.discards key = false)
      ∧ ((∀ key, .delete key ∉ sinceClear ops) → ∀ key, (start.run ops).has key ↔
        (∃ value, .set key value ∈ sinceClear ops)
          ∧ ∃ before after, start.uses (sinceClear ops) = before ++ key :: after
            ∧ key ∉ after ∧ after.toFinset.card < capacity) := by
  have hcapacity : (capacity.toNat : Int) = capacity := Int.toNat_of_nonneg (by omega)
  refine ⟨⟨capacity.toNat, []⟩, if_neg (by omega), ?_⟩
  generalize hstart : (⟨capacity.toNat, []⟩ : Lru κ α) = start
  have hempty : start.entries = [] := by rw [← hstart]
  have hroom : (start.capacity : Int) = capacity := by rw [← hstart]; exact hcapacity
  have hnone : start.keys = [] := by rw [keys, hempty]; rfl
  obtain ⟨hsublist, hlength⟩ := keys_run_sublist (c := start) [] (by simp [hnone])
    (by simp [hnone]) ops
  rw [List.nil_append] at hsublist
  refine ⟨hsublist.nodup (List.nodup_dedup _), by omega,
    eq_filter_of_sublist hsublist (List.nodup_dedup _), ?_, ?_⟩
  · intro key hkey
    obtain ⟨value, hmem, hget⟩ := get_of_has hkey
    rw [hget]
    exact exists_set_of_mem hempty hmem
  · intro hdelete key
    have hsince : ∀ op ∈ sinceClear ops, op.isClear = false := by
      intro op hmem
      simpa using List.mem_rtakeWhile_imp hmem
    have hkeys := keys_run (c := start) [] (by simp [hnone, List.rtake]) hdelete hsince
    rw [List.nil_append, run_sinceClear hempty] at hkeys
    have hlast : (start.run ops).has key ↔
        ∃ before after, start.uses (sinceClear ops) = before ++ key :: after
          ∧ key ∉ after ∧ after.toFinset.card < capacity := by
      rw [has, List.contains_iff_mem, hkeys, mem_rtake_dedup_iff]
      simp only [← hroom, Int.ofNat_lt]
    constructor
    · intro hkey
      refine ⟨?_, hlast.mp hkey⟩
      obtain ⟨value, hmem, -⟩ := get_of_has hkey
      rw [← run_sinceClear hempty] at hmem
      obtain ⟨before, after, hops, -⟩ := exists_set_of_mem hempty hmem
      exact ⟨value, by rw [hops]; simp⟩
    · exact fun hboth => hlast.mpr hboth.2

/-- Operations on a store for two entries: the key `1` is read and `2` gives way. -/
def sampleOperations : List (Operation Nat Nat) :=
  [.set 9 none, .delete 9, .clear, .set 1 (some 10), .set 2 (some 20), .get 1, .has 2, .set 3 none,
    .get 2]

theorem exists_empty_run_sampleOperations
    : 1 ≤ (2 : Int) ∧ (∀ key, Operation.delete key ∉ sinceClear sampleOperations)
      ∧ ∃ start : Lru Nat Nat, empty 2 = .ok start ∧ (start.run sampleOperations).keys = [1, 3]
        ∧ (start.run sampleOperations).keys.Nodup
        ∧ start.uses (sinceClear sampleOperations) = [1, 2, 1, 3]
        ∧ ∃ before after, sampleOperations = before ++ .set 1 (some 10) :: after
          ∧ ∀ op ∈ after, op.discards 1 = false := by
  have hdelete : ∀ key, Operation.delete key ∉ sinceClear sampleOperations := by
    intro key
    simp [sinceClear, sampleOperations, List.rtakeWhile, Operation.isClear]
  obtain ⟨start, hstart, hnodup, -, -, hvalues, hpresent⟩ :=
    exists_empty_run (show 1 ≤ (2 : Int) by decide) sampleOperations
  obtain rfl : (⟨2, []⟩ : Lru Nat Nat) = start := Except.ok.inj hstart
  have huses : (⟨2, []⟩ : Lru Nat Nat).uses (sinceClear sampleOperations) = [1, 2, 1, 3] := by
    decide
  have hone := (hpresent hdelete 1).mpr
    ⟨⟨some 10, by decide⟩, [1, 2], [3], huses, by decide, by decide⟩
  exact ⟨by decide, hdelete, _, hstart, by decide, hnodup, huses, hvalues 1 hone⟩

end SvgKit.Lru
