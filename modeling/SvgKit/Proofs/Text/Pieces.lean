import SvgKit.Proofs.Text.Splitting

/-! The pieces of a text that is put together from others, and what trimming takes off.
-/

namespace SvgKit.Text

variable {p : Char → Bool} {separator : Char} {s : Text}

-----------------------------------------------------------------------------------------
-- Pieces
-----------------------------------------------------------------------------------------

/-- A separator in front ends an empty piece. -/
theorem splitOnChar_separator (hseparator : p separator) (s : Text)
    : splitOnChar p (separator :: s) = [] :: splitOnChar p s :=
  splitOnChar_append (s := []) (by simp) hseparator s

/-- Another character in front belongs to the first piece. -/
theorem splitOnChar_cons {c : Char} (hc : p c = false) (s : Text)
    : splitOnChar p (c :: s) = (c :: (splitOnChar p s).headD []) :: (splitOnChar p s).tail := by
  rw [splitOnChar, List.foldr_cons, splitOnChar.step, if_neg (Bool.eq_false_iff.mp hc)]
  rfl

/-- The first piece reaches to the first separator. -/
theorem headD_splitOnChar (p : Char → Bool) (s : Text)
    : (splitOnChar p s).headD [] = s.takeWhile (!p ·) := by
  induction s with
  | nil => rfl
  | cons c s ih =>
      cases hc : p c with
      | false =>
          rw [splitOnChar_cons hc, List.takeWhile_cons_of_pos (by simp [hc]), ← ih]
          rfl
      | true =>
          rw [splitOnChar_separator hc, List.takeWhile_cons_of_neg (by simp [hc])]
          rfl

/-- A text without separators in front belongs to the first piece. -/
theorem splitOnChar_append_left {front : Text} (hfront : ∀ c ∈ front, p c = false) (s : Text)
    : splitOnChar p (front ++ s)
      = (front ++ (splitOnChar p s).headD []) :: (splitOnChar p s).tail := by
  induction front with
  | nil => rfl
  | cons c front ih =>
      rw [List.forall_mem_cons] at hfront
      rw [List.cons_append, splitOnChar_cons hfront.1, ih hfront.2]
      rfl

/-- The pieces of two texts with a separator between them. -/
theorem splitOnChar_append_cons (hseparator : p separator) (s rest : Text)
    : splitOnChar p (s ++ separator :: rest) = splitOnChar p s ++ splitOnChar p rest := by
  induction s with
  | nil => exact splitOnChar_separator hseparator rest
  | cons c s ih =>
      cases hc : p c with
      | false =>
          rw [List.cons_append, splitOnChar_cons hc, splitOnChar_cons hc, ih]
          rfl
      | true =>
          rw [List.cons_append, splitOnChar_separator hc, splitOnChar_separator hc, ih,
            List.cons_append]

theorem splitOnChar_eq_cons (p : Char → Bool) (s : Text)
    : splitOnChar p s = (splitOnChar p s).headD [] :: (splitOnChar p s).tail := rfl

/-- The last piece of a text goes on in the first one of what follows, whatever follows. The
induction is over the text in front.
-/
theorem exists_splitOnChar_append (p : Char → Bool) (s : Text)
    : ∃ before last, ∀ rest, splitOnChar p (s ++ rest)
      = before ++ (last ++ (splitOnChar p rest).headD []) :: (splitOnChar p rest).tail := by
  induction s with
  | nil => exact ⟨[], [], fun rest => rfl⟩
  | cons c s ih =>
      obtain ⟨before, last, h⟩ := ih
      cases hc : p c with
      | true =>
          refine ⟨[] :: before, last, fun rest => ?_⟩
          rw [List.cons_append, splitOnChar_separator hc, h]
          rfl
      | false =>
          cases before with
          | nil =>
              refine ⟨[], c :: last, fun rest => ?_⟩
              rw [List.cons_append, splitOnChar_cons hc, h]
              rfl
          | cons first before =>
              refine ⟨(c :: first) :: before, last, fun rest => ?_⟩
              rw [List.cons_append, splitOnChar_cons hc, h]
              rfl

/-- The pieces of joined parts are those of the parts. -/
theorem splitOnChar_join_eq_flatMap (hseparator : p separator) {parts : List Text}
    (hne : parts ≠ [])
    : splitOnChar p (join [separator] parts) = parts.flatMap (splitOnChar p) := by
  induction parts with
  | nil => exact absurd rfl hne
  | cons part parts ih =>
      by_cases hnil : parts = []
      · subst hnil
        rw [join_singleton, List.flatMap_cons, List.flatMap_nil, List.append_nil]
      · rw [join_cons _ _ hnil, List.singleton_append, splitOnChar_append_cons hseparator,
          ih hnil, List.flatMap_cons]

/-- Where a separator stays as it is, joined parts are spelled part by part. -/
theorem flatMap_join {f : Char → Text} (hseparator : f separator = [separator])
    (parts : List Text)
    : (join [separator] parts).flatMap f
      = join [separator] (parts.map fun part => part.flatMap f) := by
  induction parts with
  | nil => rfl
  | cons part parts ih =>
      by_cases hnil : parts = []
      · subst hnil
        rw [List.map_cons, List.map_nil, join_singleton, join_singleton]
      · rw [join_cons _ _ hnil, List.map_cons, join_cons _ _ (by simpa using hnil),
          List.flatMap_append, List.flatMap_append, ih, List.flatMap_singleton, hseparator]

theorem join_append {parts more : List Text} (hparts : parts ≠ []) (hmore : more ≠ [])
    : join [separator] (parts ++ more)
      = join [separator] parts ++ separator :: join [separator] more := by
  induction parts with
  | nil => exact absurd rfl hparts
  | cons part parts ih =>
      by_cases hnil : parts = []
      · subst hnil
        rw [List.singleton_append, join_cons _ _ hmore, join_singleton]
        rfl
      · rw [List.cons_append, join_cons _ _ (by simp [hnil]), ih hnil, join_cons _ _ hnil]
        simp

theorem mem_join_of_mem {c : Char} {separator part : Text} {parts : List Text}
    (hpart : part ∈ parts) (hc : c ∈ part)
    : c ∈ join separator parts := by
  induction parts with
  | nil => cases hpart
  | cons first parts ih =>
      by_cases hnil : parts = []
      · subst hnil
        rw [join_singleton]
        rwa [List.mem_singleton.mp hpart] at hc
      · rw [join_cons _ _ hnil]
        rcases List.mem_cons.mp hpart with rfl | hpart
        · exact List.mem_append_left _ hc
        · exact List.mem_append_right _ (List.mem_append_right _ (ih hpart))

/-- Parts that are left out or written shorter make up a shorter text. -/
theorem length_join_filterMap_le {f : Text → Option Text}
    (hf : ∀ part text, f part = some text → text.length ≤ part.length) (parts : List Text)
    : (join [separator] (parts.filterMap f)).length ≤ (join [separator] parts).length := by
  induction parts with
  | nil => rfl
  | cons part parts ih =>
      have hparts :
          (join [separator] parts).length ≤ (join [separator] (part :: parts)).length := by
        by_cases hnil : parts = []
        · simp [hnil, join]
        · rw [join_cons _ _ hnil]
          simp only [List.length_append]
          omega
      cases hpart : f part with
      | none =>
          rw [List.filterMap_cons_none hpart]
          exact ih.trans hparts
      | some text =>
          have hlength := hf part text hpart
          rw [List.filterMap_cons_some hpart]
          by_cases hnil : parts.filterMap f = []
          · rw [hnil, join_singleton]
            by_cases hnone : parts = []
            · rwa [hnone, join_singleton]
            · rw [join_cons _ _ hnone, List.length_append]
              omega
          · have hsome : parts ≠ [] := by
              rintro rfl
              exact hnil rfl
            rw [join_cons _ _ hnil, join_cons _ _ hsome]
            simp only [List.length_append]
            omega

theorem beq_eq_false_of_not_mem (hs : separator ∉ s) : ∀ c ∈ s, (c == separator) = false := by
  intro c hc
  rw [beq_eq_false_iff_ne]
  rintro rfl
  exact hs hc

-----------------------------------------------------------------------------------------
-- Trimming
-----------------------------------------------------------------------------------------

/-- Trimming takes off blanks only. -/
theorem count_trim {c : Char} (hc : isBlank c = false) (s : Text)
    : (trim s).count c = s.count c := by
  obtain ⟨front, back, hfront, hback, heq⟩ := exists_eq_trim s
  have hzero {blanks : Text} (hblanks : allBlank blanks) : blanks.count c = 0 := by
    refine List.count_eq_zero.mpr fun hmem => ?_
    rw [List.all_eq_true.mp hblanks c hmem] at hc
    cases hc
  conv_rhs => rw [heq, List.count_append, List.count_append, hzero hfront, hzero hback]
  omega

theorem not_mem_of_not_mem_trim {c : Char} (hblank : isBlank c = false) (hc : c ∉ trim s)
    : c ∉ s := by
  rw [← List.count_eq_zero, ← count_trim hblank, List.count_eq_zero]
  exact hc

/-- Blanks in front and behind are trimmed off. -/
theorem trim_append_left {blanks : Text} (h : allBlank blanks) (s : Text)
    : trim (blanks ++ s) = trim s := by
  rw [trim_eq_rdropWhile, trim_eq_rdropWhile, dropBlank_append h]

theorem rdropWhile_append_blanks {blanks : Text} (h : allBlank blanks) (s : Text)
    : (s ++ blanks).rdropWhile isBlank = s.rdropWhile isBlank := by
  induction blanks using List.reverseRecOn with
  | nil => rw [List.append_nil]
  | append_singleton blanks c ih =>
      have hall := List.all_eq_true.mp h
      rw [← List.append_assoc, List.rdropWhile_concat_pos _ _ _ (hall c (by simp)), ih]
      exact List.all_eq_true.mpr fun d hd => hall d (List.mem_append_left _ hd)

theorem trim_append_right {blanks : Text} (h : allBlank blanks) (s : Text)
    : trim (s ++ blanks) = trim s := by
  rw [trim_eq_rdropWhile, trim_eq_rdropWhile, dropBlank, dropBlank, List.dropWhile_append]
  split
  · next hempty =>
      rw [List.isEmpty_iff.mp hempty, List.dropWhile_eq_nil_iff.mpr (List.all_eq_true.mp h)]
  · exact rdropWhile_append_blanks h _

theorem rdropWhile_prefix_append (p : Char → Bool) (s t : Text)
    : s.rdropWhile p <+: (s ++ t).rdropWhile p := by
  induction t using List.reverseRecOn with
  | nil => simp
  | append_singleton t c ih =>
      rw [← List.append_assoc]
      by_cases hc : p c
      · rwa [List.rdropWhile_concat_pos _ _ _ hc]
      · rw [List.rdropWhile_concat_neg _ _ _ hc, List.append_assoc]
        exact (List.rdropWhile_prefix p s).trans (List.prefix_append _ _)

/-- What is left of a text stays in front when more text comes behind it. -/
theorem trim_prefix_trim_append (s t : Text) : trim s <+: trim (s ++ t) := by
  rw [trim_eq_rdropWhile, trim_eq_rdropWhile, dropBlank, dropBlank, List.dropWhile_append]
  split
  · next hempty =>
      rw [List.isEmpty_iff.mp hempty, List.rdropWhile_nil]
      exact List.nil_prefix
  · exact rdropWhile_prefix_append _ _ _

theorem length_trim_le (s : Text) : (trim s).length ≤ s.length := by
  obtain ⟨front, back, -, -, hs⟩ := exists_eq_trim s
  conv_rhs => rw [hs]
  simp only [List.length_append]
  omega

theorem rdropWhile_append_cons {c : Char} (hc : isBlank c = false) (s t : Text)
    : (s ++ c :: t).rdropWhile isBlank = s ++ c :: t.rdropWhile isBlank := by
  induction t using List.reverseRecOn with
  | nil => exact List.rdropWhile_concat_neg _ _ _ (by simp [hc])
  | append_singleton t d ih =>
      rw [← List.cons_append, ← List.append_assoc]
      by_cases hd : isBlank d
      · rw [List.rdropWhile_concat_pos _ _ _ hd, List.rdropWhile_concat_pos _ _ _ hd, ih]
      · rw [List.rdropWhile_concat_neg _ _ _ hd, List.rdropWhile_concat_neg _ _ _ hd]
        simp

/-- Blanks are trimmed off on both sides of a character that is none. -/
theorem trim_append_cons {c : Char} (hc : isBlank c = false) (s t : Text)
    : trim (s ++ c :: t) = dropBlank s ++ c :: t.rdropWhile isBlank := by
  have hfront : dropBlank (s ++ c :: t) = dropBlank s ++ c :: t := by
    rw [dropBlank, List.dropWhile_append]
    split
    · next hempty =>
        rw [dropBlank, List.isEmpty_iff.mp hempty, List.dropWhile_cons_of_neg (by simp [hc])]
        rfl
    · rfl
  rw [trim_eq_rdropWhile, hfront, rdropWhile_append_cons hc]

end SvgKit.Text
