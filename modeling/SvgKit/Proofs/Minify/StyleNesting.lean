import SvgKit.Minify.Style
import SvgKit.Proofs.Text.Splitting
import Mathlib.Data.List.Basic

/-! Styles as style sheets read them. What stands in quotes or in parentheses belongs to the value
around it, whatever it is, and so does a character behind a backslash; only what stands outside of
these separates declarations, ends a property or is dropped as white space.
-/

namespace SvgKit.Minify

-----------------------------------------------------------------------------------------
-- Nesting
-----------------------------------------------------------------------------------------

/-- What is open at a place of a style: a quote, parentheses, and an escape of one character. -/
structure Nesting where
  quote : Option Char
  depth : Nat
  escaped : Bool
  deriving DecidableEq

namespace Nesting

/-- Nothing is open. -/
def top : Nesting := ⟨none, 0, false⟩

/-- What is open behind a character. -/
def next (n : Nesting) (c : Char) : Nesting :=
  if n.escaped then { n with escaped := false }
  else if c = '\\' then { n with escaped := true }
  else
    match n.quote with
    | some quote => if c = quote then { n with quote := none } else n
    | none =>
      if c = '"' || c = '\'' then { n with quote := some c }
      else if c = '(' then { n with depth := n.depth + 1 }
      else if c = ')' then { n with depth := n.depth - 1 }
      else n

/-- What is open behind a text. -/
def after (n : Nesting) (s : Text) : Nesting := s.foldl next n

end Nesting

/-- White space of style sheets. -/
def isStyleSpace (c : Char) : Bool :=
  c == ' ' || c == '\t' || c == '\n' || c == '\r' || c == '\u000C'

-----------------------------------------------------------------------------------------
-- Reading
-----------------------------------------------------------------------------------------

/-- Splits at the first separator that stands outside of everything. -/
def splitOutside? (separator : Char) (n : Nesting) : Text → Option (Text × Text)
  | [] => none
  | c :: s =>
    if n = .top ∧ c = separator then some ([], s)
    else (splitOutside? separator (n.next c) s).map fun found => (c :: found.1, found.2)

/-- The pieces between the semicolons that stand outside of everything. -/
def stylePieces (n : Nesting) : Text → List Text
  | [] => [[]]
  | c :: s =>
    let pieces := stylePieces (n.next c) s
    if n = .top ∧ c = ';' then [] :: pieces else (c :: pieces.headD []) :: pieces.tail

/-- The text without the white space at its end that stands outside of everything. -/
def dropSpaceAtEnd (n : Nesting) : Text → Text
  | [] => []
  | c :: s =>
    let rest := dropSpaceAtEnd (n.next c) s
    if rest = [] ∧ n = .top ∧ isStyleSpace c then [] else c :: rest

/-- The text without the white space around it that stands outside of everything. -/
def trimOutside (s : Text) : Text := dropSpaceAtEnd .top (s.dropWhile isStyleSpace)

/-- The declaration that a piece of a style is, if it has a colon. -/
def styleDeclaration? (piece : Text) : Option Declaration :=
  (splitOutside? ':' .top piece).map fun found => ⟨trimOutside found.1, trimOutside found.2⟩

/-- The declarations of a style. -/
def styleDeclarations (style : Text) : List Declaration :=
  (stylePieces .top style).filterMap styleDeclaration?

-----------------------------------------------------------------------------------------
-- Places outside
-----------------------------------------------------------------------------------------

/-- The separator stands nowhere outside of everything. -/
def Misses (separator : Char) (n : Nesting) : Text → Prop
  | [] => True
  | c :: s => ¬(n = .top ∧ c = separator) ∧ Misses separator (n.next c) s

section Nesting

variable {separator : Char} {n : Nesting} {s t : Text}

theorem Nesting.after_append (n : Nesting) (s t : Text)
    : n.after (s ++ t) = (n.after s).after t := List.foldl_append

theorem Nesting.after_cons (n : Nesting) (c : Char) (s : Text)
    : n.after (c :: s) = (n.next c).after s := rfl

theorem misses_append : Misses separator n (s ++ t)
    ↔ Misses separator n s ∧ Misses separator (n.after s) t := by
  induction s generalizing n with
  | nil => simp [Misses, Nesting.after]
  | cons c s ih => simp only [List.cons_append, Misses, ih, Nesting.after_cons, and_assoc]

theorem misses_of_not_mem (hs : separator ∉ s) : Misses separator n s := by
  induction s generalizing n with
  | nil => trivial
  | cons c s ih =>
      rw [List.mem_cons, not_or] at hs
      exact ⟨fun h => hs.1 h.2.symm, ih hs.2⟩

/-- A separator that is missed does not split; a text up to a separator is split off. -/
theorem splitOutside?_eq_none (h : Misses separator n s) : splitOutside? separator n s = none := by
  induction s generalizing n with
  | nil => rfl
  | cons c s ih => rw [splitOutside?, if_neg h.1, ih h.2, Option.map_none]

theorem splitOutside?_append (h : Misses separator n s) (htop : n.after s = .top) (rest : Text)
    : splitOutside? separator n (s ++ separator :: rest) = some (s, rest) := by
  induction s generalizing n with
  | nil => exact if_pos ⟨htop, rfl⟩
  | cons c s ih => rw [List.cons_append, splitOutside?, if_neg h.1, ih h.2 htop, Option.map_some]

/-- Every text is of one of the two kinds, by induction over it. -/
theorem misses_or_exists (separator : Char) (n : Nesting) (s : Text)
    : Misses separator n s
      ∨ ∃ front rest, s = front ++ separator :: rest ∧ Misses separator n front
        ∧ n.after front = .top := by
  induction s generalizing n with
  | nil => exact .inl trivial
  | cons c s ih =>
      by_cases hc : n = .top ∧ c = separator
      · exact .inr ⟨[], s, by rw [hc.2]; rfl, trivial, hc.1⟩
      · rcases ih (n.next c) with hs | ⟨front, rest, rfl, hfront, htop⟩
        · exact .inl ⟨hc, hs⟩
        · exact .inr ⟨c :: front, rest, rfl, ⟨hc, hfront⟩, htop⟩

theorem stylePieces_of_misses (h : Misses ';' n s) : stylePieces n s = [s] := by
  induction s generalizing n with
  | nil => rfl
  | cons c s ih =>
      rw [stylePieces, ih h.2]
      exact if_neg h.1

theorem stylePieces_append (h : Misses ';' n s) (htop : n.after s = .top) (rest : Text)
    : stylePieces n (s ++ ';' :: rest) = s :: stylePieces .top rest := by
  induction s generalizing n with
  | nil =>
      have hnext : n.next ';' = .top := by
        rw [show n = .top from htop]
        rfl
      rw [List.nil_append, stylePieces, hnext]
      exact if_pos ⟨htop, rfl⟩
  | cons c s ih =>
      rw [List.cons_append, stylePieces, ih h.2 htop]
      exact if_neg h.1

theorem stylePieces_ne_nil (n : Nesting) (s : Text) : stylePieces n s ≠ [] := by
  cases s with
  | nil => simp [stylePieces]
  | cons c s =>
      rw [stylePieces]
      split <;> simp

/-- The first piece begins where the style does, and every other one outside of everything. -/
theorem misses_stylePieces (n : Nesting) (s : Text)
    : Misses ';' n ((stylePieces n s).headD [])
      ∧ ∀ piece ∈ (stylePieces n s).tail, Misses ';' .top piece := by
  induction s generalizing n with
  | nil => exact ⟨trivial, by simp [stylePieces]⟩
  | cons c s ih =>
      obtain ⟨hfirst, hothers⟩ := ih (n.next c)
      rw [stylePieces]
      split
      · next hc =>
          have hnext : n.next c = .top := by
            rw [hc.1, hc.2]
            rfl
          obtain ⟨piece, pieces, heq⟩ :=
            List.exists_cons_of_ne_nil (stylePieces_ne_nil (n.next c) s)
          rw [heq, hnext] at hfirst
          rw [heq] at hothers
          refine ⟨trivial, ?_⟩
          rw [List.tail_cons, heq]
          exact List.forall_mem_cons.mpr ⟨hfirst, hothers⟩
      · next hc => exact ⟨⟨hc, hfirst⟩, hothers⟩

/-- The pieces between semicolons make up the style, by induction over it. -/
theorem join_stylePieces (n : Nesting) (s : Text) : Text.join [';'] (stylePieces n s) = s := by
  induction s generalizing n with
  | nil => rfl
  | cons c s ih =>
      have hrest := ih (n.next c)
      rw [stylePieces]
      split
      · next hc => rw [Text.join_cons _ _ (stylePieces_ne_nil _ _), hrest, hc.2]; rfl
      · obtain ⟨piece, pieces, heq⟩ := List.exists_cons_of_ne_nil (stylePieces_ne_nil (n.next c) s)
        rw [heq] at hrest ⊢
        by_cases hnil : pieces = []
        · subst hnil
          rw [Text.join_singleton] at hrest
          rw [hrest]
          exact Text.join_singleton ..
        · rw [Text.join_cons _ _ hnil] at hrest
          rw [← hrest]
          exact Text.join_cons _ _ hnil

end Nesting

-----------------------------------------------------------------------------------------
-- White space
-----------------------------------------------------------------------------------------

/-- Nothing but white space. -/
def allSpace (s : Text) : Prop := ∀ c ∈ s, isStyleSpace c

theorem allSpace_nil : allSpace [] := by simp [allSpace]

theorem isBlank_of_isStyleSpace {c : Char} (h : isStyleSpace c) : Text.isBlank c := by
  simp only [isStyleSpace, Bool.or_eq_true, beq_iff_eq] at h
  rcases h with (((rfl | rfl) | rfl) | rfl) | rfl <;> decide

theorem allBlank_of_allSpace {s : Text} (h : allSpace s) : Text.allBlank s :=
  List.all_eq_true.mpr fun c hc => isBlank_of_isStyleSpace (h c hc)

/-- White space opens nothing. -/
theorem after_space {s : Text} (h : allSpace s) : Nesting.top.after s = .top := by
  induction s with
  | nil => rfl
  | cons c s ih =>
      obtain ⟨hc, hs⟩ := List.forall_mem_cons.mp h
      have hnext : Nesting.top.next c = .top := by
        simp only [isStyleSpace, Bool.or_eq_true, beq_iff_eq] at hc
        rcases hc with (((rfl | rfl) | rfl) | rfl) | rfl <;> rfl
      rw [Nesting.after_cons, hnext, ih hs]

section Space

variable {n : Nesting} {s : Text}

/-- What the last character does to the end of a text. -/
theorem dropSpaceAtEnd_concat (n : Nesting) (s : Text) (c : Char)
    : dropSpaceAtEnd n (s ++ [c])
      = if n.after s = .top ∧ isStyleSpace c then dropSpaceAtEnd n s else s ++ [c] := by
  induction s generalizing n with
  | nil =>
      rw [List.nil_append, dropSpaceAtEnd, dropSpaceAtEnd, dropSpaceAtEnd]
      exact if_congr (by simp [Nesting.after]) rfl rfl
  | cons d s ih =>
      rw [List.cons_append, dropSpaceAtEnd, ih, Nesting.after_cons]
      by_cases hc : (n.next d).after s = .top ∧ isStyleSpace c
      · rw [if_pos hc, if_pos hc]
        rfl
      · rw [if_neg hc, if_neg hc]
        exact if_neg (by simp)

/-- Only white space outside of everything is dropped, by induction from the end. -/
theorem exists_dropSpaceAtEnd (n : Nesting) (s : Text)
    : ∃ space, allSpace space ∧ s = dropSpaceAtEnd n s ++ space
      ∧ (space ≠ [] → n.after (dropSpaceAtEnd n s) = .top) := by
  induction s using List.reverseRecOn with
  | nil => exact ⟨[], allSpace_nil, rfl, by simp⟩
  | append_singleton s c ih =>
      rw [dropSpaceAtEnd_concat]
      by_cases hc : n.after s = .top ∧ isStyleSpace c
      · obtain ⟨space, hspace, hs, htop⟩ := ih
        rw [if_pos hc]
        refine ⟨space ++ [c], ?_, ?_, fun _ => ?_⟩
        · intro d hd
          rcases List.mem_append.mp hd with hd | hd
          · exact hspace d hd
          · rw [List.mem_singleton.mp hd]
            exact hc.2
        · rw [← List.append_assoc, ← hs]
        · by_cases hnil : space = []
          · rw [hnil, List.append_nil] at hs
            rw [← hs]
            exact hc.1
          · exact htop hnil
      · rw [if_neg hc]
        exact ⟨[], allSpace_nil, by simp, by simp⟩

theorem dropSpaceAtEnd_again (n : Nesting) (s : Text)
    : dropSpaceAtEnd n (dropSpaceAtEnd n s) = dropSpaceAtEnd n s := by
  induction s using List.reverseRecOn with
  | nil => rfl
  | append_singleton s c ih =>
      rw [dropSpaceAtEnd_concat]
      split
      · exact ih
      · next hc => rw [dropSpaceAtEnd_concat, if_neg hc]

theorem dropSpaceAtEnd_append {space : Text} (hs : dropSpaceAtEnd n s = s) (hspace : allSpace space)
    (htop : space ≠ [] → n.after s = .top)
    : dropSpaceAtEnd n (s ++ space) = s := by
  induction space using List.reverseRecOn with
  | nil => rwa [List.append_nil]
  | append_singleton space c ih =>
      have htop := htop (by simp)
      have hfront : allSpace space := fun d hd => hspace d (List.mem_append_left _ hd)
      have hafter : n.after (s ++ space) = .top := by
        rw [Nesting.after_append, htop, after_space hfront]
      rw [← List.append_assoc, dropSpaceAtEnd_concat,
        if_pos ⟨hafter, hspace c (List.mem_append_right _ List.mem_cons_self)⟩]
      exact ih hfront fun _ => htop

end Space

/-- A text is its trimmed form with white space around it, which stands outside of everything. -/
theorem exists_trimOutside (s : Text)
    : ∃ front back, allSpace front ∧ allSpace back ∧ s = front ++ (trimOutside s ++ back)
      ∧ (back ≠ [] → Nesting.top.after (trimOutside s) = .top) := by
  obtain ⟨back, hback, hs, htop⟩ := exists_dropSpaceAtEnd .top (s.dropWhile isStyleSpace)
  refine ⟨s.takeWhile isStyleSpace, back, fun c hc => List.mem_takeWhile_imp hc, hback, ?_, htop⟩
  rw [trimOutside, ← hs]
  exact List.takeWhile_append_dropWhile.symm

/-- Other white space around a trimmed form is dropped again. -/
theorem trimOutside_append {s front back : Text} (hfront : allSpace front) (hback : allSpace back)
    (htop : back ≠ [] → Nesting.top.after (trimOutside s) = .top)
    : trimOutside (front ++ (trimOutside s ++ back)) = trimOutside s := by
  have hdrop : (front ++ (trimOutside s ++ back)).dropWhile isStyleSpace
      = (trimOutside s ++ back).dropWhile isStyleSpace :=
    List.dropWhile_append_of_pos hfront
  have hagain : dropSpaceAtEnd .top (trimOutside s) = trimOutside s := dropSpaceAtEnd_again ..
  by_cases hnil : trimOutside s = []
  · have hspace : back.dropWhile isStyleSpace = [] := List.dropWhile_eq_nil_iff.mpr hback
    rw [trimOutside, hdrop, hnil, List.nil_append, hspace]
    rfl
  · obtain ⟨c, t, ht⟩ := List.exists_cons_of_ne_nil hnil
    have hstops : Stops isStyleSpace (trimOutside s ++ back) := by
      obtain ⟨space, -, hs, -⟩ := exists_dropSpaceAtEnd .top (s.dropWhile isStyleSpace)
      have hfirst : Stops isStyleSpace (s.dropWhile isStyleSpace) := stops_dropWhile
      rw [← trimOutside] at hs
      rw [hs, ht] at hfirst
      rw [ht]
      exact hfirst
    rw [trimOutside, hdrop, hstops.dropWhile]
    exact dropSpaceAtEnd_append hagain hback htop

end SvgKit.Minify
