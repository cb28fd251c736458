import Mathlib.Data.List.Basic
import SvgKit.Cache.Lru

/-! What the entries of a bounded store become under its operations. -/

namespace SvgKit.Lru

variable {κ α : Type} [DecidableEq κ] {c : Lru κ α} {key : κ} {entry : κ × Option α}

theorem mem_of_mem_others (h : entry ∈ c.others key) : entry ∈ c.entries :=
  (List.mem_filter.mp h).1

theorem mem_of_lookup {value : Option α} (h : c.entries.lookup key = some value)
    : (key, value) ∈ c.entries := by
  obtain ⟨before, after, he, _⟩ := List.lookup_eq_some_iff.mp h
  simp [he]

/-- A value that is found is that of an entry. -/
theorem mem_of_get_eq_some {value : α} {next : Lru κ α} (h : c.get key = (some value, next))
    : (key, some value) ∈ c.entries := by
  unfold get at h
  split at h
  · cases h
  · next hv =>
    cases h
    exact mem_of_lookup hv

/-- A lookup keeps the entries, but for their order. -/
theorem mem_of_mem_get (h : entry ∈ (c.get key).2.entries) : entry ∈ c.entries := by
  unfold get at h
  split at h
  · exact h
  · next hv =>
    rcases List.mem_append.mp h with h | h
    · exact mem_of_mem_others h
    · obtain rfl := List.mem_singleton.mp h
      exact mem_of_lookup hv

/-- The entries of a store that takes in a value are the new one and some of the old ones. -/
theorem mem_of_mem_set {value : Option α} (h : entry ∈ (c.set key value).entries)
    : entry = (key, value) ∨ entry ∈ c.entries := by
  rcases List.mem_append.mp (List.mem_of_mem_drop h) with h | h
  · exact Or.inr (mem_of_mem_others h)
  · exact Or.inl (List.mem_singleton.mp h)

end SvgKit.Lru
