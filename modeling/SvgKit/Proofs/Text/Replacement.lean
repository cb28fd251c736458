import SvgKit.Proofs.Text.Scanning

/-! Replacing item by item. A stretch of text passes a scanner if it is replaced by the same stretch
whatever stands behind it; stretches that pass one after the other pass together.
-/

namespace SvgKit

namespace Scanner

variable {α β : Type} {p : Scanner α} {f : α → Text}

/-- A stretch is replaced by another one whatever stands behind it. -/
def Passes (p : Scanner α) (f : α → Text) (s s' : Text) : Prop :=
  ∀ rest, p.replace f (s ++ rest) = s' ++ p.replace f rest

theorem Passes.nil : p.Passes f [] [] := fun _ => rfl

theorem Passes.append {s s' t t' : Text} (hs : p.Passes f s s') (ht : p.Passes f t t')
    : p.Passes f (s ++ t) (s' ++ t') := by
  intro rest
  rw [List.append_assoc, hs, ht, List.append_assoc]

/-- Stretches that pass pass together, by induction over them. -/
theorem Passes.flatMap {items : List β} {before after : β → Text}
    (h : ∀ item ∈ items, p.Passes f (before item) (after item))
    : p.Passes f (items.flatMap before) (items.flatMap after) := by
  induction items with
  | nil => exact .nil
  | cons item items ih =>
      obtain ⟨hfirst, hrest⟩ := List.forall_mem_cons.mp h
      exact hfirst.append (ih hrest)

theorem Passes.replace_eq {s s' : Text} (h : p.Passes f s s') : p.replace f s = s' := by
  have hnil : p.replace f [] = [] := by rw [replace, p.pieces_nil, List.flatMap_nil]
  have hs := h []
  rwa [List.append_nil, hnil, List.append_nil] at hs

/-- Where the pieces that one scanner writes pass another one, the other one replaces piece by
piece.
-/
theorem replace_replace {q : Scanner β} {before after : β → Text} {s : Text}
    (hplain : ∀ c, .plain c ∈ q.pieces s → p.Passes f [c] [c])
    (hfound : ∀ item, .found item ∈ q.pieces s → p.Passes f (before item) (after item))
    : p.replace f (q.replace before s) = q.replace after s := by
  refine Passes.replace_eq (Passes.flatMap fun piece hpiece => ?_)
  cases piece with
  | plain c => exact hplain c hpiece
  | found item => exact hfound item hpiece

/-- An item passes. -/
theorem passes_of_read {s : Text} {item : α} (h : ∀ rest, p.read (s ++ rest) = some (item, rest))
    : p.Passes f s (f item) :=
  fun rest => replace_of_read (h rest)

/-- A stretch in which nothing is read passes as it is, by induction over the stretch. -/
theorem passes_of_read_none {s : Text}
    (h : ∀ c t, c :: t <:+ s → ∀ rest, p.read (c :: (t ++ rest)) = none)
    : p.Passes f s s := by
  induction s with
  | nil => exact .nil
  | cons c s ih =>
      intro rest
      rw [List.cons_append, replace_of_read_none (h c s List.suffix_rfl rest),
        ih (fun x t ht => h x t (ht.trans (List.suffix_cons _ _))) rest]
      rfl

/-- Where items begin with a mark, a stretch without the mark passes as it is. -/
theorem passes_plain {mark : Char} (hmark : ∀ c s, c ≠ mark → p.read (c :: s) = none) {s : Text}
    (hs : mark ∉ s)
    : p.Passes f s s :=
  passes_of_read_none fun c _ ht _ => hmark c _ fun h => hs (h ▸ ht.subset List.mem_cons_self)

/-- So does a stretch with the mark at its head only, if nothing is read there. -/
theorem passes_cons {mark : Char} (hmark : ∀ c s, c ≠ mark → p.read (c :: s) = none) {s : Text}
    (hs : mark ∉ s) (hread : ∀ rest, p.read (mark :: (s ++ rest)) = none)
    : p.Passes f (mark :: s) (mark :: s) := by
  intro rest
  rw [List.cons_append, replace_of_read_none (hread rest), passes_plain hmark hs rest]
  rfl

end Scanner

end SvgKit
