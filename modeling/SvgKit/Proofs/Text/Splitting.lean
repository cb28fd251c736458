import SvgKit.Text.Basic
import Mathlib.Data.List.DropRight
import Mathlib.Data.List.TakeWhile

/-! Texts that begin with characters of a class, texts that are split at a character and joined
again, and the blanks around a text.
-/

namespace SvgKit

-----------------------------------------------------------------------------------------
-- Classes of characters
-----------------------------------------------------------------------------------------

/-- The text does not begin with a character of a class. -/
def Stops (p : Char → Bool) (s : Text) : Prop := ∀ c ∈ s.head?, p c = false

theorem Stops.takeWhile {p : Char → Bool} {s : Text} (h : Stops p s) : s.takeWhile p = [] := by
  cases s with
  | nil => rfl
  | cons c s => rw [List.takeWhile_cons_of_neg (by simp [h c rfl])]

theorem Stops.dropWhile {p : Char → Bool} {s : Text} (h : Stops p s) : s.dropWhile p = s := by
  cases s with
  | nil => rfl
  | cons c s => rw [List.dropWhile_cons_of_neg (by simp [h c rfl])]

theorem stops_dropWhile {p : Char → Bool} {s : Text} : Stops p (s.dropWhile p) := by
  intro c hc
  by_contra h
  rw [Bool.not_eq_false] at h
  have := List.head?_dropWhile_not p s
  rw [Option.mem_def.mp hc] at this
  simp [h] at this

theorem takeWhile_append_stops {p : Char → Bool} {word s : Text} (hword : ∀ c ∈ word, p c)
    (hs : Stops p s)
    : (word ++ s).takeWhile p = word := by
  rw [List.takeWhile_append_of_pos hword, hs.takeWhile, List.append_nil]

theorem dropWhile_append_stops {p : Char → Bool} {word s : Text} (hword : ∀ c ∈ word, p c)
    (hs : Stops p s)
    : (word ++ s).dropWhile p = s := by
  rw [List.dropWhile_append_of_pos hword, hs.dropWhile]

section Runs

variable {p : Char → Bool} {s rest : Text} {c : Char}

theorem dropWhile_extend (h : s.dropWhile p = c :: rest) (more : Text)
    : (s ++ more).dropWhile p = c :: (rest ++ more) := by
  rw [List.dropWhile_append, h]
  rfl

theorem takeWhile_extend (h : s.dropWhile p = c :: rest) (more : Text)
    : (s ++ more).takeWhile p = s.takeWhile p := by
  have hshorter : (s.takeWhile p).length ≠ s.length := by
    have hlength := congrArg List.length (List.takeWhile_append_dropWhile (p := p) (l := s))
    rw [List.length_append, h, List.length_cons] at hlength
    omega
  rw [List.takeWhile_append, if_neg hshorter]

end Runs

/-- A text begins with no character of a class if it begins with a word of other characters. -/
theorem stops_of_forall {p q : Char → Bool} (hpq : ∀ c, q c → p c = false) {word : Text}
    (hne : word ≠ []) (hword : ∀ c ∈ word, q c) (s : Text)
    : Stops p (word ++ s) := by
  obtain ⟨c, word, rfl⟩ := List.exists_cons_of_ne_nil hne
  rintro _ ⟨⟩
  exact hpq _ (hword _ List.mem_cons_self)

/-- Only what stands at the head of a text matters. -/
theorem Stops.append {p : Char → Bool} {s rest : Text} (hne : s ≠ []) (h : Stops p (s ++ rest))
    (rest' : Text)
    : Stops p (s ++ rest') := by
  obtain ⟨c, s, rfl⟩ := List.exists_cons_of_ne_nil hne
  exact h

/-- What ends outside a class reaches over all characters of the class in front. -/
theorem exists_append_of_stops {p : Char → Bool} {word tail front rest : Text}
    (hword : ∀ c ∈ word, p c) (hrest : Stops p rest) (heq : word ++ tail = front ++ rest)
    : ∃ more, front = word ++ more := by
  rcases List.append_eq_append_iff.mp heq with ⟨more, hfront, -⟩ | ⟨more, hmore, htail⟩
  · exact ⟨more, hfront⟩
  · cases more with
    | nil => exact ⟨[], by rw [hmore, List.append_nil, List.append_nil]⟩
    | cons c more =>
        have hc := hrest c (by rw [htail]; rfl)
        rw [hword c (by simp [hmore])] at hc
        cases hc

namespace Text

-----------------------------------------------------------------------------------------
-- The first separator
-----------------------------------------------------------------------------------------

/-- A text is split at the first separator. -/
theorem splitAtLiteral?_cons {c : Char} {s : Text} (hs : c ∉ s) (rest : Text)
    : splitAtLiteral? [c] (s ++ c :: rest) = some (s, rest) := by
  suffices ∀ done : Text, splitAtLiteral?.go [c] done (s ++ c :: rest)
      = some (done.reverse ++ s, rest) from this []
  induction s with
  | nil =>
      intro done
      rw [List.nil_append, splitAtLiteral?.go]
      simp [dropLiteral?]
  | cons x s ih =>
      intro done
      rw [List.mem_cons, not_or] at hs
      rw [List.cons_append, splitAtLiteral?.go]
      simp [dropLiteral?, hs.1, ih hs.2]

/-- No separator stands in front of the first one. -/
theorem not_mem_of_splitAtLiteral? {c : Char} {s before rest : Text}
    (h : splitAtLiteral? [c] s = some (before, rest))
    : c ∉ before := by
  intro hc
  obtain ⟨front, back, hfront, hnot⟩ := List.eq_append_cons_of_mem hc
  have heq := eq_of_splitAtLiteral? h
  rw [heq, hfront, List.append_assoc, List.append_assoc, List.cons_append,
    splitAtLiteral?_cons hnot, Option.some.injEq, Prod.mk.injEq] at h
  have hlength := congrArg List.length h.1
  simp at hlength

-----------------------------------------------------------------------------------------
-- All separators
-----------------------------------------------------------------------------------------

variable {p : Char → Bool} {separator : Char} {s : Text}

theorem splitOnChar_of_forall (hs : ∀ c ∈ s, p c = false) : splitOnChar p s = [s] := by
  induction s with
  | nil => rfl
  | cons c s ih =>
      rw [List.forall_mem_cons] at hs
      have hrest := ih hs.2
      unfold splitOnChar at hrest ⊢
      rw [List.cons.injEq] at hrest
      rw [List.foldr_cons, splitOnChar.step, if_neg (by simp [hs.1]), hrest.1, hrest.2]

theorem splitOnChar_append (hs : ∀ c ∈ s, p c = false) (hseparator : p separator) (rest : Text)
    : splitOnChar p (s ++ separator :: rest) = s :: splitOnChar p rest := by
  induction s with
  | nil =>
      unfold splitOnChar
      rw [List.nil_append, List.foldr_cons, splitOnChar.step, if_pos hseparator]
  | cons c s ih =>
      rw [List.forall_mem_cons] at hs
      have hrest := ih hs.2
      unfold splitOnChar at hrest ⊢
      rw [List.cons.injEq] at hrest
      rw [List.cons_append, List.foldr_cons, splitOnChar.step, if_neg (by simp [hs.1]),
        hrest.1, hrest.2]

theorem join_cons (separator part : Text) {parts : List Text} (hne : parts ≠ [])
    : join separator (part :: parts) = part ++ (separator ++ join separator parts) := by
  obtain ⟨next, parts, rfl⟩ := List.exists_cons_of_ne_nil hne
  simp [join, List.intercalate]

theorem join_singleton (separator part : Text) : join separator [part] = part := by
  simp [join]

/-- Joined parts are split again where they were joined. -/
theorem splitOnChar_join {parts : List Text} (hne : parts ≠ [])
    (hparts : ∀ part ∈ parts, ∀ c ∈ part, p c = false) (hseparator : p separator)
    : splitOnChar p (join [separator] parts) = parts := by
  induction parts with
  | nil => exact absurd rfl hne
  | cons part parts ih =>
      rw [List.forall_mem_cons] at hparts
      by_cases hnil : parts = []
      · subst hnil
        rw [join_singleton, splitOnChar_of_forall hparts.1]
      · rw [join_cons _ _ hnil, List.singleton_append, splitOnChar_append hparts.1 hseparator,
          ih hnil hparts.2]

/-- The pieces between separators make up the text, by induction over it. -/
theorem join_splitOnChar (separator : Char) (s : Text)
    : join [separator] (splitOnChar (· == separator) s) = s := by
  induction s with
  | nil => rfl
  | cons c s ih =>
      unfold splitOnChar at ih ⊢
      rw [List.foldr_cons]
      generalize s.foldr (splitOnChar.step (· == separator)) ([], []) = split at ih ⊢
      dsimp only at ih ⊢
      rw [splitOnChar.step]
      split
      · next hc =>
          rw [join_cons _ _ (List.cons_ne_nil _ _), ih, beq_iff_eq.mp hc]
          rfl
      · by_cases hnil : split.2 = []
        · rw [hnil, join_singleton] at ih ⊢
          rw [ih]
        · rw [join_cons _ _ hnil] at ih ⊢
          rw [List.cons_append, ih]

/-- No separator stands in a piece. -/
theorem eq_false_of_mem_splitOnChar {piece : Text} (hpiece : piece ∈ splitOnChar p s) {c : Char}
    (hc : c ∈ piece)
    : p c = false := by
  suffices ∀ piece ∈ (s.foldr (splitOnChar.step p) ([], [])).1
      :: (s.foldr (splitOnChar.step p) ([], [])).2, ∀ c ∈ piece, p c = false from
    this piece hpiece c hc
  clear hpiece hc
  induction s with
  | nil => simp
  | cons x s ih =>
      rw [List.foldr_cons]
      generalize s.foldr (splitOnChar.step p) ([], []) = split at ih ⊢
      rw [List.forall_mem_cons] at ih
      rw [splitOnChar.step]
      split
      · exact List.forall_mem_cons.mpr ⟨by simp, List.forall_mem_cons.mpr ih⟩
      · next hx =>
          exact List.forall_mem_cons.mpr
            ⟨List.forall_mem_cons.mpr ⟨Bool.eq_false_iff.mpr hx, ih.1⟩, ih.2⟩

-----------------------------------------------------------------------------------------
-- Blanks
-----------------------------------------------------------------------------------------

/-- A text is its trimmed form with blanks around it. -/
theorem exists_eq_trim (s : Text)
    : ∃ front back : Text, allBlank front ∧ allBlank back ∧ s = front ++ (trim s ++ back) := by
  refine ⟨s.takeWhile isBlank, ((dropBlank s).reverse.takeWhile isBlank).reverse, ?_, ?_, ?_⟩
  · exact List.all_eq_true.mpr fun c hc => List.mem_takeWhile_imp hc
  · exact List.all_eq_true.mpr fun c hc => List.mem_takeWhile_imp (List.mem_reverse.mp hc)
  · have hback := congrArg List.reverse
      (List.takeWhile_append_dropWhile (p := isBlank) (l := (dropBlank s).reverse))
    rw [List.reverse_append, List.reverse_reverse] at hback
    rw [trim, dropBlank, hback]
    exact List.takeWhile_append_dropWhile.symm

theorem dropBlank_append {front : Text} (hfront : allBlank front) (s : Text)
    : dropBlank (front ++ s) = dropBlank s :=
  List.dropWhile_append_of_pos (List.all_eq_true.mp hfront)

theorem trim_eq_rdropWhile (s : Text) : trim s = (dropBlank s).rdropWhile isBlank := rfl

/-- A text without a blank at either end is its trimmed form. -/
theorem trim_eq_self {c d : Char} (hc : isBlank c = false) (hd : isBlank d = false) (s : Text)
    : trim (c :: (s ++ [d])) = c :: (s ++ [d]) := by
  have hfront : dropBlank (c :: (s ++ [d])) = c :: (s ++ [d]) :=
    List.dropWhile_cons_of_neg (Bool.eq_false_iff.mp hc)
  rw [trim_eq_rdropWhile, hfront, ← List.cons_append]
  exact List.rdropWhile_concat_neg isBlank _ d (Bool.eq_false_iff.mp hd)

theorem trim_trim (s : Text) : trim (trim s) = trim s := by
  have hfront : dropBlank (trim s) = trim s := by
    refine List.dropWhile_eq_self_iff.mpr fun hpos => ?_
    obtain ⟨back, hback⟩ := List.rdropWhile_prefix isBlank (l := dropBlank s)
    rw [← trim_eq_rdropWhile] at hback
    have hself : dropBlank (dropBlank s) = dropBlank s := List.dropWhile_idempotent isBlank _
    have hlength : 0 < (dropBlank s).length := by
      rw [← hback, List.length_append]
      omega
    have hhead := List.dropWhile_eq_self_iff.mp hself hlength
    simp only [← hback, List.getElem_append_left hpos] at hhead
    exact hhead
  rw [trim_eq_rdropWhile, hfront, trim_eq_rdropWhile, List.rdropWhile_idempotent]

end Text

end SvgKit
