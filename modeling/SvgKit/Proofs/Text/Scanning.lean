import SvgKit.Text.Scanner

/-! What scanners find, read and replace: each is told by what is read at the head of a text.
-/

namespace SvgKit.Scanner

variable {α : Type} {p : Scanner α}

/-- What holds of an empty text, and of a text if it holds of what is left when a character has been
passed or an item read, holds of every text. The induction is on the length of the text.
-/
theorem induction (p : Scanner α) {motive : Text → Prop} (nil : motive [])
    (plain : ∀ c s, p.read (c :: s) = none → motive s → motive (c :: s))
    (found : ∀ s item rest, p.read s = some (item, rest) → motive rest → motive s) (s : Text)
    : motive s := by
  induction hn : s.length using Nat.strongRecOn generalizing s with
  | _ n ih =>
      subst hn
      cases s with
      | nil => exact nil
      | cons c s =>
          cases hread : p.read (c :: s) with
          | none => exact plain c s hread (ih _ (Nat.lt_succ_self _) s rfl)
          | some read => exact found _ _ _ hread (ih _ (p.shorter hread) _ rfl)

-----------------------------------------------------------------------------------------
-- Finding
-----------------------------------------------------------------------------------------

/-- Nothing is read where nothing is left. -/
theorem read_nil : p.read [] = none := by
  cases hread : p.read [] with
  | none => rfl
  | some found => exact absurd (p.shorter hread) (Nat.not_lt_zero _)

/-- A scanner finds what it reads at any place of a text. -/
theorem finds_of_suffix {s t : Text} (hsuffix : t <:+ s) (hread : (p.read t).isSome) : p.finds s := by
  induction s with
  | nil =>
      obtain rfl := List.suffix_nil.mp hsuffix
      obtain ⟨⟨item, rest⟩, hread⟩ := Option.isSome_iff_exists.mp hread
      exact absurd (p.shorter hread) (Nat.not_lt_zero _)
  | cons c s ih =>
      rw [finds, Bool.or_eq_true]
      rcases List.suffix_cons_iff.mp hsuffix with rfl | hsuffix
      · exact .inl hread
      · exact .inr (ih hsuffix)

/-- What is found gives an item, by induction over the text. -/
theorem finds_eq_false_of_findAll {s : Text} (h : p.findAll s = []) : p.finds s = false := by
  induction s with
  | nil => rfl
  | cons c s ih =>
      cases hread : p.read (c :: s) with
      | none =>
          rw [findAll, p.pieces_of_read_none hread, List.filterMap_cons] at h
          rw [finds, hread, ih h]
          rfl
      | some found =>
          rw [findAll, p.pieces_of_read (show _ = some (found.1, found.2) from hread),
            List.filterMap_cons] at h
          cases h

/-- Nothing is read at any place of a text in which nothing is found. -/
theorem read_of_finds_eq_false {s t : Text} (h : p.finds s = false) (hsuffix : t <:+ s)
    : p.read t = none := by
  cases hread : p.read t with
  | none => rfl
  | some found =>
      have hfinds := finds_of_suffix hsuffix (Option.isSome_of_eq_some hread)
      rw [h] at hfinds
      cases hfinds

/-- Nothing is found in a text at no place of which something is read, by induction over the text. -/
theorem finds_eq_false_of_read {s : Text} (h : ∀ t, t <:+ s → p.read t = none)
    : p.finds s = false := by
  induction s with
  | nil => rfl
  | cons c s ih =>
      rw [finds, h _ List.suffix_rfl, ih fun t ht => h t (ht.trans (List.suffix_cons _ _))]
      rfl

/-- No items come from a text in which nothing is found, by induction over the text. -/
theorem findAll_eq_nil_of_finds {s : Text} (h : p.finds s = false) : p.findAll s = [] := by
  induction s with
  | nil => simp [findAll]
  | cons c s ih =>
      rw [finds, Bool.or_eq_false_iff, Option.isSome_eq_false_iff, Option.isNone_iff_eq_none] at h
      rw [findAll, p.pieces_of_read_none h.1, List.filterMap_cons]
      exact ih h.2

-----------------------------------------------------------------------------------------
-- Finding all
-----------------------------------------------------------------------------------------

section FindAll

variable (p)

@[simp]
theorem findAll_nil : p.findAll [] = [] := by
  rw [findAll, pieces_nil, List.filterMap_nil]

theorem findAll_of_read {s rest : Text} {item : α} (h : p.read s = some (item, rest))
    : p.findAll s = item :: p.findAll rest := by
  rw [findAll, p.pieces_of_read h]
  rfl

theorem findAll_of_read_none {c : Char} {s : Text} (h : p.read (c :: s) = none)
    : p.findAll (c :: s) = p.findAll s := by
  rw [findAll, p.pieces_of_read_none h]
  rfl

/-- What is found in two texts together is what is found in each, unless an item reaches from
the first one into the second one and has a property that no item found has. The induction is on
the length of the first text.
-/
theorem findAll_append {s t : Text} (Q : α → Prop)
    (hread : ∀ c s, p.read (c :: s) = none ∧ p.read (c :: s ++ t) = none
      ∨ (∃ item rest, p.read (c :: s) = some (item, rest)
        ∧ p.read (c :: s ++ t) = some (item, rest ++ t))
      ∨ ∃ item rest, p.read (c :: s ++ t) = some (item, rest) ∧ Q item)
    (hnot : ∀ item ∈ p.findAll (s ++ t), ¬ Q item)
    : p.findAll (s ++ t) = p.findAll s ++ p.findAll t := by
  generalize hlength : s.length = n
  induction n using Nat.strongRecOn generalizing s with
  | _ n ih =>
      cases s with
      | nil => simp
      | cons c s =>
          rcases hread c s with ⟨hnone, hnone'⟩ | ⟨item, rest, hsome, hsome'⟩
            | ⟨item, rest, hsome, hitem⟩
          · rw [p.findAll_of_read_none hnone]
            rw [List.cons_append] at hnone'
            rw [List.cons_append, p.findAll_of_read_none hnone'] at hnot ⊢
            exact ih s.length (by rw [← hlength]; simp) hnot rfl
          · rw [p.findAll_of_read hsome]
            rw [p.findAll_of_read hsome'] at hnot ⊢
            rw [List.cons_append, ih rest.length (hlength ▸ p.shorter hsome)
              (fun item hitem => hnot item (List.mem_cons_of_mem _ hitem)) rfl]
          · rw [p.findAll_of_read hsome] at hnot
            exact absurd hitem (hnot item List.mem_cons_self)

theorem exists_read_of_mem_pieces {s : Text} {item : α} (h : .found item ∈ p.pieces s)
    : ∃ t rest, p.read t = some (item, rest) := by
  induction s using p.induction with
  | nil => simp at h
  | plain c s hread ih =>
      rw [p.pieces_of_read_none hread, List.mem_cons] at h
      exact ih (h.resolve_left (by simp))
  | found s item' rest hread ih =>
      rw [p.pieces_of_read hread, List.mem_cons, Piece.found.injEq] at h
      rcases h with rfl | h
      · exact ⟨s, rest, hread⟩
      · exact ih h

theorem exists_read_of_mem_findAll {s : Text} {item : α} (h : item ∈ p.findAll s)
    : ∃ t rest, p.read t = some (item, rest) := by
  obtain ⟨piece, hpiece, hitem⟩ := List.mem_filterMap.mp h
  cases piece with
  | plain => cases hitem
  | found => exact p.exists_read_of_mem_pieces (Option.some.inj hitem ▸ hpiece)

end FindAll

-----------------------------------------------------------------------------------------
-- Replacing
-----------------------------------------------------------------------------------------

section Replace

variable {f : α → Text}

@[simp]
theorem replace_nil : p.replace f [] = [] := by
  rw [replace, pieces_nil, List.flatMap_nil]

theorem replace_of_read {s rest : Text} {item : α} (h : p.read s = some (item, rest))
    : p.replace f s = f item ++ p.replace f rest := by
  rw [replace, p.pieces_of_read h]
  rfl

theorem replace_of_read_none {c : Char} {s : Text} (h : p.read (c :: s) = none)
    : p.replace f (c :: s) = c :: p.replace f s := by
  rw [replace, p.pieces_of_read_none h]
  rfl

end Replace

end SvgKit.Scanner
