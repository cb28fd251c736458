import SvgKit.Number.Numeral
import Mathlib.Data.List.Forall2

/-! Where the characters of a rearranged text come from, and the items of lists that correspond
in pairs.
-/

namespace SvgKit.Text

variable {p : Char → Bool} {s : Text} {c : Char}

/-- The pieces of a text hold characters of it only, by induction over the text. -/
theorem mem_of_mem_splitOnChar {piece : Text} (hpiece : piece ∈ splitOnChar p s)
    (hc : c ∈ piece)
    : c ∈ s := by
  suffices ∀ piece ∈ (s.foldr (splitOnChar.step p) ([], [])).1
      :: (s.foldr (splitOnChar.step p) ([], [])).2, ∀ c ∈ piece, c ∈ s from
    this piece hpiece c hc
  clear hpiece hc
  induction s with
  | nil => simp
  | cons x s ih =>
      simp only [List.foldr_cons]
      generalize s.foldr (splitOnChar.step p) ([], []) = split at ih ⊢
      rw [List.forall_mem_cons] at ih
      unfold splitOnChar.step
      split
      · simp only [List.forall_mem_cons]
        exact ⟨by simp, fun c hc => List.mem_cons_of_mem _ (ih.1 c hc),
          fun piece hpiece c hc => List.mem_cons_of_mem _ (ih.2 piece hpiece c hc)⟩
      · simp only [List.forall_mem_cons]
        exact ⟨⟨List.mem_cons_self, fun c hc => List.mem_cons_of_mem _ (ih.1 c hc)⟩,
          fun piece hpiece c hc => List.mem_cons_of_mem _ (ih.2 piece hpiece c hc)⟩

/-- The characters of a text that do not separate pieces are in the pieces. -/
theorem exists_mem_splitOnChar (hc : c ∈ s) (hp : p c = false)
    : ∃ piece ∈ splitOnChar p s, c ∈ piece := by
  suffices ∃ piece ∈ (s.foldr (splitOnChar.step p) ([], [])).1
      :: (s.foldr (splitOnChar.step p) ([], [])).2, c ∈ piece from this
  induction s with
  | nil => simp at hc
  | cons x s ih =>
      simp only [List.foldr_cons]
      generalize s.foldr (splitOnChar.step p) ([], []) = split at ih ⊢
      unfold splitOnChar.step
      rcases List.mem_cons.mp hc with rfl | hc
      · rw [if_neg (by simp [hp])]
        exact ⟨_, List.mem_cons_self, List.mem_cons_self⟩
      · obtain ⟨piece, hpiece, hmem⟩ := ih hc
        split
        · exact ⟨piece, List.mem_cons_of_mem _ hpiece, hmem⟩
        · rcases List.mem_cons.mp hpiece with rfl | hpiece
          · exact ⟨_, List.mem_cons_self, List.mem_cons_of_mem _ hmem⟩
          · exact ⟨piece, List.mem_cons_of_mem _ hpiece, hmem⟩

/-- Joined parts hold their own characters and those of the separator. -/
theorem mem_join {separator : Text} {parts : List Text} (h : c ∈ join separator parts)
    : c ∈ separator ∨ ∃ part ∈ parts, c ∈ part := by
  induction parts with
  | nil => simp [join] at h
  | cons part parts ih =>
      cases parts with
      | nil => exact .inr ⟨part, by simp, by simpa [join] using h⟩
      | cons next parts =>
          have hsplit : join separator (part :: next :: parts)
              = part ++ (separator ++ join separator (next :: parts)) := by
            simp [join, List.intercalate]
          rw [hsplit] at h
          rcases List.mem_append.mp h with h | h
          · exact .inr ⟨part, by simp, h⟩
          · rcases List.mem_append.mp h with h | h
            · exact .inl h
            · rcases ih h with h | ⟨part', hmem, hc⟩
              · exact .inl h
              · exact .inr ⟨part', List.mem_cons_of_mem _ hmem, hc⟩

/-- Joining pieces of a text puts nothing into it but the separator. -/
theorem mem_join_of_splitOnChar {separator : Text} {parts : List Text}
    (hparts : parts ⊆ splitOnChar p s) (h : c ∈ join separator parts)
    : c ∈ separator ∨ c ∈ s := by
  rcases mem_join h with h | ⟨part, hpart, hc⟩
  · exact .inl h
  · exact .inr (mem_of_mem_splitOnChar (hparts hpart) hc)

theorem mem_of_mem_trim (h : c ∈ trim s) : c ∈ s := by
  have hdrop {s : Text} (h : c ∈ dropBlank s) : c ∈ s :=
    (List.dropWhile_suffix _).subset h
  exact hdrop (List.mem_reverse.mp (hdrop (List.mem_reverse.mp h)))

theorem mem_of_mem_dropEndWhile (h : c ∈ dropEndWhile p s) : c ∈ s :=
  List.mem_reverse.mp ((List.dropWhile_suffix p).subset (List.mem_reverse.mp h))

end SvgKit.Text

namespace SvgKit

/-- A scanner finds plain characters of the text only. -/
theorem Scanner.mem_of_plain_mem_pieces {α : Type} (p : Scanner α) {s : Text} {c : Char}
    (h : .plain c ∈ p.pieces s)
    : c ∈ s := by
  suffices ∀ n (s : Text), s.length = n → .plain c ∈ p.pieces s → c ∈ s from this _ s rfl h
  intro n
  induction n using Nat.strongRecOn with
  | _ n ih =>
      intro s hs h
      cases s with
      | nil => simp at h
      | cons x s =>
          cases hread : p.read (x :: s) with
          | none =>
              rw [p.pieces_of_read_none hread] at h
              rcases List.mem_cons.mp h with h | h
              · cases h
                exact List.mem_cons_self
              · exact List.mem_cons_of_mem _ (ih _ (by rw [← hs]; simp) s rfl h)
          | some found =>
              obtain ⟨item, rest⟩ := found
              rw [p.pieces_of_read hread] at h
              rcases List.mem_cons.mp h with h | h
              · cases h
              · exact (p.suffix hread).subset (ih _ (hs ▸ p.shorter hread) rest rfl h)

-----------------------------------------------------------------------------------------
-- Lists in pairs
-----------------------------------------------------------------------------------------

theorem exists_mem_right_of_forall₂ {α β : Type} {R : α → β → Prop} {l : List α} {l' : List β}
    (h : List.Forall₂ R l l') {a : α} (ha : a ∈ l)
    : ∃ b ∈ l', R a b := by
  induction h with
  | nil => cases ha
  | cons hfirst _ ih =>
      rcases List.mem_cons.mp ha with rfl | ha
      · exact ⟨_, List.mem_cons_self, hfirst⟩
      · obtain ⟨b, hb, hR⟩ := ih ha
        exact ⟨b, List.mem_cons_of_mem _ hb, hR⟩

theorem exists_mem_left_of_forall₂ {α β : Type} {R : α → β → Prop} {l : List α} {l' : List β}
    (h : List.Forall₂ R l l') {b : β} (hb : b ∈ l')
    : ∃ a ∈ l, R a b :=
  exists_mem_right_of_forall₂ h.flip hb

end SvgKit
