import SvgKit.Minify.Path
import SvgKit.Proofs.Text.Splitting

/-! Compaction passes once over a text: it leaves out the separators and puts single spaces in their
place where two characters have to be kept apart. Doing it again changes nothing.
-/

namespace SvgKit.Minify

/-- The space for separators between two characters, if there are any and the two are to be kept
apart.
-/
def gap (keepsApart : Char → Char → Bool) (last : Option Char) (separated : Bool) (c : Char) : Text :=
  if separated && last.any (keepsApart · c) then [' '] else []

/-- The text with gaps for its separators, behind a last character and perhaps separators. -/
def respace (isSeparator : Char → Bool) (keepsApart : Char → Char → Bool) (last : Option Char)
    (separated : Bool) : Text → Text
  | [] => []
  | c :: s =>
    if isSeparator c then respace isSeparator keepsApart last true s
    else gap keepsApart last separated c ++ c :: respace isSeparator keepsApart (some c) false s

/-- Neither character is a command, and the second one is no minus sign. -/
def keepsApart (last c : Char) : Bool := !last.isAlpha && !c.isAlpha && c != '-'

section Respacing

variable {p : Char → Bool} {apart : Char → Char → Bool} {last : Option Char} {separated : Bool}

theorem gap_false (c : Char) : gap apart last false c = [] := rfl

theorem gap_none (c : Char) : gap apart none separated c = [] := by
  cases separated <;> rfl

theorem respace_separator {c : Char} (hc : p c) (s : Text)
    : respace p apart last separated (c :: s) = respace p apart last true s := if_pos hc

theorem respace_cons {c : Char} (hc : p c = false) (s : Text)
    : respace p apart last separated (c :: s)
      = gap apart last separated c ++ c :: respace p apart (some c) false s :=
  if_neg (Bool.eq_false_iff.mp hc)

/-- A text that has been respaced is not changed again, by induction over it. -/
theorem respace_respace (hspace : p ' ') (s : Text)
    : respace p apart last false (respace p apart last separated s)
      = respace p apart last separated s := by
  induction s generalizing last separated with
  | nil => rfl
  | cons c s ih =>
      cases hc : p c with
      | true => rw [respace_separator hc, ih]
      | false =>
          rw [respace_cons hc]
          cases hgap : separated && last.any (apart · c) with
          | true =>
              rw [Bool.and_eq_true] at hgap
              obtain ⟨rfl, hgap⟩ := hgap
              rw [gap, Bool.true_and, if_pos hgap, List.singleton_append, respace_separator hspace,
                respace_cons hc, ih, gap, Bool.true_and, if_pos hgap]
              rfl
          | false =>
              rw [gap, hgap, if_neg Bool.false_ne_true, List.nil_append, respace_cons hc, ih,
                gap_false, List.nil_append]

/-- The separators in front of a character make one gap, by induction over them. -/
theorem respace_append {separator : Text} (hseparator : ∀ c ∈ separator, p c) {c : Char}
    (hc : p c = false) (s : Text)
    : respace p apart last separated (separator ++ c :: s)
      = gap apart last (separated || !separator.isEmpty) c
        ++ c :: respace p apart (some c) false s := by
  induction separator generalizing separated with
  | nil => rw [List.nil_append, respace_cons hc, List.isEmpty_nil, Bool.not_true, Bool.or_false]
  | cons x separator ih =>
      rw [List.forall_mem_cons] at hseparator
      rw [List.cons_append, respace_separator hseparator.1, ih hseparator.2]
      simp

/-- Separators at the end are left out. -/
theorem respace_of_forall {s : Text} (hs : ∀ c ∈ s, p c) : respace p apart last separated s = [] := by
  induction s generalizing separated with
  | nil => rfl
  | cons c s ih =>
      rw [List.forall_mem_cons] at hs
      rw [respace_separator hs.1, ih hs.2]

/-- A word behind another character stays as it is. -/
theorem respace_word {word : Text} (hword : ∀ c ∈ word, p c = false) (l : Char) (s : Text)
    : respace p apart (some l) false (word ++ s)
      = word ++ respace p apart (some ((l :: word).getLast (List.cons_ne_nil _ _))) false s := by
  induction word generalizing l with
  | nil => rfl
  | cons c word ih =>
      rw [List.forall_mem_cons] at hword
      rw [List.cons_append, respace_cons hword.1, gap_false, List.nil_append, ih hword.2,
        List.cons_append, List.getLast_cons (List.cons_ne_nil _ _)]

/-- A word behind separators stays as it is, with one gap in front. -/
theorem respace_append_word {separator : Text} (hseparator : ∀ c ∈ separator, p c) {c : Char}
    {word : Text} (hword : ∀ x ∈ c :: word, p x = false) (s : Text)
    : respace p apart last false (separator ++ (c :: word ++ s))
      = gap apart last (!separator.isEmpty) c ++ (c :: word
        ++ respace p apart (some ((c :: word).getLast (List.cons_ne_nil _ _))) false s) := by
  rw [List.forall_mem_cons] at hword
  rw [List.cons_append, respace_append hseparator hword.1, respace_word hword.2, Bool.false_or]
  rfl

/-- What a text is respaced to are characters of it and spaces. -/
theorem mem_respace {s : Text} {c : Char} (h : c ∈ respace p apart last separated s)
    : c = ' ' ∨ c ∈ s := by
  induction s generalizing last separated with
  | nil => cases h
  | cons x s ih =>
      cases hx : p x with
      | true =>
          rw [respace_separator hx] at h
          exact (ih h).imp_right (List.mem_cons_of_mem _)
      | false =>
          rw [respace_cons hx, gap] at h
          rcases List.mem_append.mp h with h | h
          · split at h
            · exact .inl (List.mem_singleton.mp h)
            · cases h
          · rcases List.mem_cons.mp h with rfl | h
            · exact .inr List.mem_cons_self
            · exact (ih h).imp_right (List.mem_cons_of_mem _)

end Respacing

-----------------------------------------------------------------------------------------
-- Words
-----------------------------------------------------------------------------------------

section Words

variable {p : Char → Bool}

/-- Words with a space in front of each. -/
def spacedWords (parts : List Text) : Text := (parts.filter (!·.isEmpty)).flatMap (' ' :: ·)

theorem spacedWords_cons {part : Text} (hne : part ≠ []) (parts : List Text)
    : spacedWords (part :: parts) = ' ' :: part ++ spacedWords parts := by
  rw [spacedWords, List.filter_cons_of_pos (by simpa using hne), List.flatMap_cons]
  rfl

theorem join_eq_tail (parts : List Text)
    : Text.join [' '] parts = (parts.flatMap (' ' :: ·)).tail := by
  induction parts with
  | nil => rfl
  | cons part parts ih =>
      cases parts with
      | nil => rw [Text.join_singleton, List.flatMap_singleton, List.tail_cons]
      | cons next parts =>
          rw [Text.join_cons _ _ (List.cons_ne_nil _ _), ih, List.flatMap_cons, List.flatMap_cons]
          rfl

/-- Behind a character, a text consists of the rest of a word and of words with spaces in front. The
induction over the text goes along with the case that the word has ended.
-/
theorem exists_respace_eq_spacedWords (s : Text)
    : ∃ first more, Text.splitOnChar p s = first :: more
      ∧ ∀ last, respace p (fun _ _ => true) (some last) false s = first ++ spacedWords more
        ∧ respace p (fun _ _ => true) (some last) true s = spacedWords (first :: more) := by
  induction s with
  | nil => exact ⟨[], [], rfl, fun _ => ⟨rfl, rfl⟩⟩
  | cons c s ih =>
      obtain ⟨first, more, hsplit, hwords⟩ := ih
      cases hc : p c with
      | true =>
          refine ⟨[], first :: more, ?_, fun last => ?_⟩
          · rw [← hsplit]
            exact Text.splitOnChar_append (s := []) (by simp) hc s
          · rw [respace_separator hc, respace_separator hc, (hwords last).2]
            exact ⟨rfl, rfl⟩
      | false =>
          refine ⟨c :: first, more, ?_, fun last => ?_⟩
          · rw [Text.splitOnChar, List.cons.injEq] at hsplit
            rw [Text.splitOnChar, List.foldr_cons, Text.splitOnChar.step,
              if_neg (Bool.eq_false_iff.mp hc), hsplit.1, hsplit.2]
          · rw [respace_cons hc, respace_cons hc, (hwords c).1,
              spacedWords_cons (List.cons_ne_nil _ _)]
            exact ⟨rfl, rfl⟩

theorem respace_none_eq_tail {separated : Bool} (last : Char) (s : Text)
    : respace p (fun _ _ => true) none separated s
      = (respace p (fun _ _ => true) (some last) true s).tail := by
  induction s generalizing separated with
  | nil => rfl
  | cons c s ih =>
      cases hc : p c with
      | true => rw [respace_separator hc, respace_separator hc, ih]
      | false =>
          rw [respace_cons hc, respace_cons hc, gap_none]
          rfl

/-- Joined words are a text with gaps wherever separators stood between characters. -/
theorem join_words (s : Text)
    : Text.join [' '] ((Text.splitOnChar p s).filter (!·.isEmpty))
      = respace p (fun _ _ => true) none false s := by
  obtain ⟨first, more, hsplit, hwords⟩ := exists_respace_eq_spacedWords (p := p) s
  rw [respace_none_eq_tail ' ', (hwords ' ').2, join_eq_tail, hsplit]
  rfl

theorem squeeze_eq_respace (s : Text)
    : Text.squeeze s = respace Text.isBlank (fun _ _ => true) none false s := join_words s

end Words

-----------------------------------------------------------------------------------------
-- Path data
-----------------------------------------------------------------------------------------

theorem tightenStep_nil {c : Char} (hc : c ≠ ' ') : tightenStep [] c = [c] := by
  unfold tightenStep
  rw [if_neg hc]
  split <;> rfl

section Step

variable {c last : Char} (hc : c ≠ ' ') (hlast : last ≠ ' ')
include hc hlast

theorem tightenStep_cons (done : Text) : tightenStep (last :: done) c = c :: last :: done := by
  unfold tightenStep
  rw [if_neg hc]
  split
  · split
    · next heq =>
        cases heq
        exact absurd rfl hlast
    · rfl
  · rfl

/-- A space stays in front of a character if it is to be kept apart from the last one. -/
theorem tightenStep_space_cons (done : Text)
    : tightenStep (tightenStep (last :: done) ' ') c
      = c :: (gap keepsApart (some last) true c ++ last :: done) := by
  have hspace : tightenStep (last :: done) ' '
      = if last.isAlpha then last :: done else ' ' :: last :: done := rfl
  rw [hspace, gap, Bool.true_and, Option.any_some, keepsApart]
  cases hletter : last.isAlpha with
  | true => exact tightenStep_cons hc hlast done
  | false =>
      rw [if_neg Bool.false_ne_true, tightenStep, if_neg hc]
      cases hcommand : c.isAlpha || decide (c = '-') with
      | true =>
          rw [Bool.or_eq_true, decide_eq_true_eq] at hcommand
          rcases hcommand with hcommand | rfl
          · simp [hcommand]
          · rfl
      | false =>
          rw [Bool.or_eq_false_iff, decide_eq_false_iff_not] at hcommand
          simp [hcommand.1, hcommand.2]

end Step

/-- Tightening leaves the gaps between characters that are to be kept apart, by induction over the
text. What has been done ends with the last character.
-/
theorem foldl_tightenStep {p : Char → Bool} (hspace : p ' ') {last : Option Char} {separated : Bool}
    {done : Text} (hdone : done.head? = last) (hlast : last ≠ some ' ') (s : Text)
    : (respace p (fun _ _ => true) last separated s).foldl tightenStep done
      = (respace p keepsApart last separated s).reverse ++ done := by
  induction s generalizing last separated done with
  | nil => rfl
  | cons c s ih =>
      cases hc : p c with
      | true => rw [respace_separator hc, respace_separator hc, ih hdone hlast]
      | false =>
          have hne : c ≠ ' ' := by
            rintro rfl
            rw [hspace] at hc
            cases hc
          have hrest (done : Text)
              : (respace p (fun _ _ => true) (some c) false s).foldl tightenStep (c :: done)
                = (respace p keepsApart (some c) false s).reverse ++ c :: done :=
            ih rfl (by simpa using hne)
          rw [respace_cons hc, respace_cons hc, List.foldl_append, List.foldl_cons]
          cases done with
          | nil =>
              obtain rfl : last = none := hdone.symm
              rw [gap_none, gap_none, List.foldl_nil, tightenStep_nil hne, hrest]
              simp
          | cons l done =>
              obtain rfl : last = some l := hdone.symm
              have hl : l ≠ ' ' := by simpa using hlast
              cases separated with
              | false =>
                  rw [gap_false, gap_false, List.foldl_nil, tightenStep_cons hne hl, hrest]
                  simp
              | true =>
                  have hgap : gap (fun _ _ => true) (some l) true c = [' '] := rfl
                  rw [hgap, List.foldl_cons, List.foldl_nil, tightenStep_space_cons hne hl, hrest, gap]
                  split <;> simp

/-- Path data is compacted by rounding its numbers, unless there is an arc, and by respacing it. -/
theorem compactPath_eq (precision : Int) (d : Text)
    : compactPath precision d
      = (if hasArc d then .ok d else Numeral.shortenAll precision d).map
        (respace isSeparator keepsApart none false) := by
  have htighten (s : Text)
      : tighten (Text.join [' '] ((Text.splitOnChar isSeparator s).filter (!·.isEmpty)))
        = respace isSeparator keepsApart none false s := by
    have hspace : isSeparator ' ' := by decide
    have hnone : (none : Option Char) ≠ some ' ' := by simp
    rw [join_words, tighten, foldl_tightenStep hspace List.head?_nil hnone, List.append_nil,
      List.reverse_reverse]
  unfold compactPath
  split
  · exact congrArg Except.ok (htighten d)
  · cases Numeral.shortenAll precision d with
    | error failure => rfl
    | ok rounded => exact congrArg Except.ok (htighten rounded)

end SvgKit.Minify
