import Mathlib
import SvgKit.Proofs.Text.Splitting

/-! How often a literal occurs in a text. A character that does not stand in the literal separates
its occurrences, so that joining, splitting and trimming by such characters keeps their number.
-/

namespace SvgKit.Text

variable {literal : Text}

/-- The number of places of a text at which a literal begins. -/
def occurrences (literal : Text) : Text → Nat
  | [] => 0
  | c :: s => (if startsWith (c :: s) literal then 1 else 0) + occurrences literal s

/-- A literal stands in front of a character that it does not hold. -/
theorem startsWith_append_cons {c : Char} (hc : c ∉ literal) (s rest : Text)
    : startsWith (s ++ c :: rest) literal = startsWith s literal := by
  rw [startsWith, startsWith, Bool.eq_iff_iff, Option.isSome_iff_exists, Option.isSome_iff_exists]
  simp only [dropLiteral?_eq_some_iff]
  constructor
  · rintro ⟨left, hleft⟩
    rcases List.append_eq_append_iff.mp hleft with ⟨tail, hliteral, hrest⟩ | ⟨tail, hs, -⟩
    · cases tail with
      | nil => exact ⟨[], by rw [hliteral, List.append_nil, List.append_nil]⟩
      | cons x tail =>
          obtain ⟨rfl, -⟩ := List.cons.inj hrest
          exact absurd (by simp [hliteral]) hc
    · exact ⟨tail, hs⟩
  · rintro ⟨left, rfl⟩
    exact ⟨left ++ c :: rest, List.append_assoc _ _ _⟩

/-- A character that the literal does not hold separates its occurrences. -/
theorem occurrences_append_cons {c : Char} (hc : c ∉ literal) (hne : literal ≠ []) (s rest : Text)
    : occurrences literal (s ++ c :: rest) = occurrences literal s + occurrences literal rest := by
  induction s with
  | nil =>
      have hnone : startsWith (c :: rest) literal = false := by
        rw [← List.nil_append (c :: rest), startsWith_append_cons hc]
        obtain ⟨x, literal, rfl⟩ := List.exists_cons_of_ne_nil hne
        rfl
      simp [occurrences, hnone]
  | cons x s ih =>
      have hstart := startsWith_append_cons hc (x :: s) rest
      rw [List.cons_append] at hstart
      rw [List.cons_append, occurrences, occurrences, hstart, ih, Nat.add_assoc]

/-- Where the literal is one character, its occurrences in the parts of a text add up. -/
theorem occurrences_append_of_singleton {c : Char} (s rest : Text)
    : occurrences [c] (s ++ rest) = occurrences [c] s + occurrences [c] rest := by
  induction s with
  | nil => simp [occurrences]
  | cons x s ih =>
      have hstart (s : Text) : startsWith (x :: s) [c] = decide (c = x) := by
        by_cases hx : c = x <;> simp [startsWith, dropLiteral?, hx]
      rw [List.cons_append, occurrences, occurrences, hstart, hstart, ih, Nat.add_assoc]

section Separators

variable (hne : literal ≠ [])
include hne

/-- The literal does not occur in a text of other characters. -/
theorem occurrences_of_forall_not_mem {s : Text} (hs : ∀ c ∈ s, c ∉ literal)
    : occurrences literal s = 0 := by
  induction s with
  | nil => rfl
  | cons c s ih =>
      obtain ⟨hc, hs⟩ := List.forall_mem_cons.mp hs
      rw [← List.nil_append (c :: s), occurrences_append_cons hc hne, ih hs]
      rfl

theorem occurrences_append_left {front : Text} (hfront : ∀ c ∈ front, c ∉ literal) (s : Text)
    : occurrences literal (front ++ s) = occurrences literal s := by
  induction front with
  | nil => rfl
  | cons c front ih =>
      obtain ⟨hc, hfront⟩ := List.forall_mem_cons.mp hfront
      rw [List.cons_append, ← List.nil_append (c :: (front ++ s)), occurrences_append_cons hc hne,
        ih hfront]
      exact Nat.zero_add _

theorem occurrences_append_right {back : Text} (hback : ∀ c ∈ back, c ∉ literal) (s : Text)
    : occurrences literal (s ++ back) = occurrences literal s := by
  cases back with
  | nil => rw [List.append_nil]
  | cons c back =>
      obtain ⟨hc, hback⟩ := List.forall_mem_cons.mp hback
      rw [occurrences_append_cons hc hne, occurrences_of_forall_not_mem hne hback, Nat.add_zero]

/-- A stretch of other characters separates the occurrences on its two sides. -/
theorem occurrences_append_between {middle : Text} (hmiddle : middle ≠ [])
    (hother : ∀ c ∈ middle, c ∉ literal) (s rest : Text)
    : occurrences literal (s ++ (middle ++ rest))
      = occurrences literal s + occurrences literal rest := by
  obtain ⟨c, middle, rfl⟩ := List.exists_cons_of_ne_nil hmiddle
  obtain ⟨hc, hother⟩ := List.forall_mem_cons.mp hother
  rw [List.cons_append, occurrences_append_cons hc hne, occurrences_append_left hne hother]

/-- Joining by a character that the literal does not hold adds the occurrences up. -/
theorem occurrences_join {c : Char} (hc : c ∉ literal) (parts : List Text)
    : occurrences literal (join [c] parts) = (parts.map (occurrences literal)).sum := by
  induction parts with
  | nil => rfl
  | cons part parts ih =>
      by_cases hnil : parts = []
      · subst hnil
        rw [join_singleton]
        simp
      · rw [join_cons _ _ hnil, List.singleton_append, occurrences_append_cons hc hne, ih]
        simp

/-- So does splitting at such characters. -/
theorem occurrences_splitOnChar {p : Char → Bool} (hp : ∀ c, p c → c ∉ literal) (s : Text)
    : ((splitOnChar p s).map (occurrences literal)).sum = occurrences literal s := by
  induction hn : s.length using Nat.strongRecOn generalizing s with
  | _ n ih =>
      subst hn
      by_cases hs : ∀ c ∈ s, p c = false
      · rw [splitOnChar_of_forall hs]
        simp
      · have hfind : (s.find? p).isSome := by simpa using hs
        obtain ⟨separator, hfind⟩ := Option.isSome_iff_exists.mp hfind
        obtain ⟨hseparator, piece, rest, rfl, hpiece⟩ := List.find?_eq_some_iff_append.mp hfind
        have hpiece : ∀ c ∈ piece, p c = false := by simpa using hpiece
        rw [splitOnChar_append hpiece hseparator, List.map_cons, List.sum_cons,
          ih _ (by simp; omega) rest rfl, occurrences_append_cons (hp _ hseparator) hne]

/-- Trimming keeps the occurrences of a literal without blanks. -/
theorem occurrences_trim (hblank : ∀ c ∈ literal, isBlank c = false) (s : Text)
    : occurrences literal (trim s) = occurrences literal s := by
  have hnot {blanks : Text} (h : allBlank blanks) : ∀ c ∈ blanks, c ∉ literal := by
    intro c hc hmem
    have := List.all_eq_true.mp h c hc
    rw [hblank c hmem] at this
    cases this
  obtain ⟨front, back, hfront, hback, heq⟩ := exists_eq_trim s
  conv_rhs => rw [heq]
  rw [occurrences_append_left hne (hnot hfront), occurrences_append_right hne (hnot hback)]

end Separators

end SvgKit.Text
