import SvgKit.Proofs.Text.Ascii
import SvgKit.Proofs.Text.Splitting
import SvgKit.Text.Case

/-! Literals at the head of a text, anywhere in it and across the place where two texts meet, with
the case of letters and without it.
-/

namespace SvgKit.Text

-----------------------------------------------------------------------------------------
-- Literals
-----------------------------------------------------------------------------------------

/-- A condition that no end of a text satisfies, by induction over the text. -/
theorem anyEnd_eq_false_iff {p : Text → Bool} (hnil : p [] = false) {s : Text}
    : anyEnd p s = false ↔ ∀ t, t <:+ s → p t = false := by
  induction s with
  | nil =>
      refine ⟨fun _ t ht => ?_, fun _ => rfl⟩
      rwa [List.suffix_nil.mp ht]
  | cons c s ih =>
      rw [anyEnd, Bool.or_eq_false_iff, ih]
      constructor
      · rintro ⟨hhead, hrest⟩ t ht
        rcases List.suffix_cons_iff.mp ht with rfl | ht
        · exact hhead
        · exact hrest t ht
      · intro hall
        exact ⟨hall _ List.suffix_rfl, fun t ht => hall t (ht.trans (List.suffix_cons _ _))⟩

/-- A literal is found wherever it stands, by induction over what stands in front. -/
theorem hasLiteral_append (front literal rest : Text)
    : hasLiteral literal (front ++ (literal ++ rest)) := by
  suffices ∀ done, (splitAtLiteral?.go literal done (front ++ (literal ++ rest))).isSome from this []
  induction front with
  | nil =>
      intro done
      unfold splitAtLiteral?.go
      rw [List.nil_append, dropLiteral?_eq_some_iff.mpr rfl]
      rfl
  | cons c front ih =>
      intro done
      unfold splitAtLiteral?.go
      split
      · rfl
      · exact ih _

theorem hasLiteral_iff {literal s : Text} : hasLiteral literal s ↔ literal <:+: s := by
  constructor
  · intro h
    obtain ⟨⟨before, rest⟩, hsplit⟩ := Option.isSome_iff_exists.mp h
    exact ⟨before, rest, (eq_of_splitAtLiteral? hsplit).symm⟩
  · rintro ⟨before, rest, rfl⟩
    rw [List.append_assoc]
    exact hasLiteral_append before literal rest

/-- A literal begins in one text and ends in the text behind it. -/
def Crosses (literal s rest : Text) : Prop :=
  ∃ front back, front ≠ [] ∧ back ≠ [] ∧ literal = front ++ back ∧ front <:+ s ∧ back <+: rest

/-- A literal in two texts together is in one of them, or reaches from the first one into the
second one.
-/
theorem infix_append_cases {literal s rest : Text} (h : literal <:+: s ++ rest)
    : literal <:+: s ∨ literal <:+: rest ∨ Crosses literal s rest := by
  obtain ⟨before, behind, heq⟩ := h
  rw [List.append_assoc] at heq
  rcases List.append_eq_append_iff.mp heq with ⟨tail, hs, htail⟩ | ⟨tail, -, hrest⟩
  · rcases List.append_eq_append_iff.mp htail with ⟨more, hmore, -⟩ | ⟨back, hliteral, hrest⟩
    · exact .inl ⟨before, more, by rw [hs, hmore, List.append_assoc]⟩
    · by_cases htail : tail = []
      · subst htail
        exact .inr (.inl ⟨[], behind, by rw [hliteral, hrest]; rfl⟩)
      · by_cases hback : back = []
        · subst hback
          exact .inl ⟨before, [], by rw [hs, hliteral]; simp⟩
        · exact .inr (.inr ⟨tail, back, htail, hback, hliteral, ⟨before, hs.symm⟩,
            ⟨behind, hrest.symm⟩⟩)
  · exact .inr (.inl ⟨tail, behind, by rw [hrest, List.append_assoc]⟩)

/-- Nothing reaches into a text that begins with a character that the literal does not hold. -/
theorem not_crosses_of_head {literal s rest : Text} (h : ∀ c ∈ rest.head?, c ∉ literal)
    : ¬ Crosses literal s rest := by
  rintro ⟨front, back, -, hback, rfl, -, more, rfl⟩
  obtain ⟨c, back, rfl⟩ := List.exists_cons_of_ne_nil hback
  exact h c rfl (by simp)

theorem hasLiteral_append_iff {literal s rest : Text} (h : ¬ Crosses literal s rest)
    : hasLiteral literal (s ++ rest) ↔ hasLiteral literal s ∨ hasLiteral literal rest := by
  rw [hasLiteral_iff, hasLiteral_iff, hasLiteral_iff]
  constructor
  · intro hinside
    rcases infix_append_cases hinside with h' | h' | h'
    · exact .inl h'
    · exact .inr h'
    · exact absurd h' h
  · rintro (h' | h')
    · exact h'.trans (List.prefix_append _ _).isInfix
    · exact h'.trans (List.suffix_append _ _).isInfix

theorem hasLiteral_cons_iff {literal s : Text} {c : Char} (hc : c ∉ literal) (hne : literal ≠ [])
    : hasLiteral literal (c :: s) ↔ hasLiteral literal s := by
  rw [hasLiteral_iff, hasLiteral_iff, List.infix_cons_iff]
  refine ⟨fun h => h.resolve_left fun hbegins => ?_, .inr⟩
  obtain ⟨x, literal, rfl⟩ := List.exists_cons_of_ne_nil hne
  rw [List.cons_prefix_cons] at hbegins
  exact hc (by simp [hbegins.1])

/-- A literal stands behind characters that it does not hold, by induction over them. -/
theorem hasLiteral_append_of_forall {literal front : Text} (hfront : ∀ c ∈ front, c ∉ literal)
    (hne : literal ≠ []) (s : Text)
    : hasLiteral literal (front ++ s) ↔ hasLiteral literal s := by
  induction front with
  | nil => rfl
  | cons c front ih =>
      obtain ⟨hc, hfront⟩ := List.forall_mem_cons.mp hfront
      rw [List.cons_append, hasLiteral_cons_iff hc hne, ih hfront]

/-- The first place of a literal stays the first one whatever stands behind it: a literal that
began earlier would end in what is kept. The induction is on what stands in front.
-/
theorem splitAtLiteral?_append {literal s body rest : Text}
    (h : splitAtLiteral? literal s = some (body, rest)) (rest' : Text)
    : splitAtLiteral? literal (body ++ literal ++ rest') = some (body, rest') := by
  rw [eq_of_splitAtLiteral? h] at h
  suffices ∀ done,
      splitAtLiteral?.go literal done (body ++ literal ++ rest) = some (done.reverse ++ body, rest)
      → splitAtLiteral?.go literal done (body ++ literal ++ rest')
        = some (done.reverse ++ body, rest') from this [] h
  clear h
  induction body with
  | nil =>
      intro done _
      unfold splitAtLiteral?.go
      rw [List.nil_append, dropLiteral?_eq_some_iff.mpr rfl, List.append_nil]
  | cons c body ih =>
      intro done h
      unfold splitAtLiteral?.go at h ⊢
      cases hdrop : dropLiteral? literal (c :: body ++ literal ++ rest) with
      | some left =>
          rw [hdrop] at h
          simp at h
      | none =>
          rw [hdrop] at h
          have hnone : dropLiteral? literal (c :: body ++ literal ++ rest') = none := by
            rw [Option.eq_none_iff_forall_ne_some]
            intro left hleft
            have hbegins : literal <+: c :: body ++ literal :=
              List.prefix_of_prefix_length_le ⟨left, (dropLiteral?_eq_some_iff.mp hleft).symm⟩
                (List.prefix_append _ rest') (by simp; omega)
            obtain ⟨more, hmore⟩ := hbegins
            have := dropLiteral?_eq_some_iff.mpr
              (show c :: body ++ literal ++ rest = literal ++ (more ++ rest) by
                rw [← hmore, List.append_assoc])
            rw [hdrop] at this
            cases this
          rw [hnone]
          simpa using ih (c :: done) (by simpa using h)

theorem splitAtLiteral?_extend {literal s before rest : Text}
    (h : splitAtLiteral? literal s = some (before, rest)) (more : Text)
    : splitAtLiteral? literal (s ++ more) = some (before, rest ++ more) := by
  have hs := eq_of_splitAtLiteral? h
  rw [hs, List.append_assoc]
  exact splitAtLiteral?_append h (rest ++ more)

theorem dropLiteral?_extend {literal s rest : Text} (h : dropLiteral? literal s = some rest)
    (more : Text)
    : dropLiteral? literal (s ++ more) = some (rest ++ more) := by
  rw [dropLiteral?_eq_some_iff] at h ⊢
  rw [h, List.append_assoc]

/-- Trimming leaves a literal without blanks where it is. -/
theorem hasLiteral_trim {literal : Text} (hne : literal ≠ [])
    (hblank : ∀ c ∈ literal, isBlank c = false) (s : Text)
    : hasLiteral literal (trim s) ↔ hasLiteral literal s := by
  have hnot {blanks : Text} (h : allBlank blanks) : ∀ c ∈ blanks, c ∉ literal := by
    intro c hc hmem
    have hc := List.all_eq_true.mp h c hc
    rw [hblank c hmem] at hc
    cases hc
  obtain ⟨front, back, hfront, hback, heq⟩ := exists_eq_trim s
  have hcrosses : ¬ Crosses literal (trim s) back :=
    not_crosses_of_head fun c hc => hnot hback c (List.mem_of_mem_head? hc)
  have hnone : ¬ hasLiteral literal back := by
    rw [← List.append_nil back, hasLiteral_append_of_forall (hnot hback) hne, hasLiteral_iff,
      List.infix_nil]
    exact hne
  conv_rhs => rw [heq, hasLiteral_append_of_forall (hnot hfront) hne,
    hasLiteral_append_iff hcrosses]
  exact (or_iff_left hnone).symm

/-- What has been passed stands in front of what is found. -/
theorem splitAtLiteral?_go_eq (literal done s : Text)
    : splitAtLiteral?.go literal done s
      = (splitAtLiteral? literal s).map fun (before, rest) => (done.reverse ++ before, rest) := by
  unfold splitAtLiteral?
  induction s generalizing done with
  | nil =>
      unfold splitAtLiteral?.go
      cases dropLiteral? literal [] <;> simp
  | cons c s ih =>
      unfold splitAtLiteral?.go
      cases dropLiteral? literal (c :: s) with
      | some rest => simp
      | none =>
          dsimp only
          rw [ih (c :: done), ih [c], Option.map_map]
          simp [Function.comp_def]

/-- A literal that neither stands in a text nor reaches out of it is found behind the text. -/
theorem splitAtLiteral?_append_left {literal s rest : Text} (hs : ¬ hasLiteral literal s)
    (hcrosses : ¬ Crosses literal s rest)
    : splitAtLiteral? literal (s ++ rest)
      = (splitAtLiteral? literal rest).map fun (before, left) => (s ++ before, left) := by
  induction s with
  | nil => simp
  | cons c s ih =>
      have hnone : dropLiteral? literal (c :: s ++ rest) = none := by
        rw [Option.eq_none_iff_forall_ne_some]
        intro left hleft
        rw [hasLiteral_iff] at hs
        rcases List.append_eq_append_iff.mp (dropLiteral?_eq_some_iff.mp hleft) with
          ⟨back, hliteral, hrest⟩ | ⟨more, hs', -⟩
        · by_cases hback : back = []
          · exact hs ⟨[], [], by rw [hliteral, hback]; simp⟩
          · exact hcrosses ⟨c :: s, back, List.cons_ne_nil _ _, hback, hliteral, List.suffix_rfl,
              left, hrest.symm⟩
        · exact hs ⟨[], more, hs'.symm⟩
      have hs' : ¬ hasLiteral literal s := by
        rw [hasLiteral_iff] at hs ⊢
        exact fun h => hs (h.trans (List.suffix_cons _ _).isInfix)
      have hcrosses' : ¬ Crosses literal s rest := by
        rintro ⟨front, back, hfront, hback, heq, hsuffix, hbegins⟩
        exact hcrosses ⟨front, back, hfront, hback, heq, hsuffix.trans (List.suffix_cons _ _), hbegins⟩
      have hgo : splitAtLiteral? literal (c :: s ++ rest)
          = splitAtLiteral?.go literal [c] (s ++ rest) := by
        rw [splitAtLiteral?, splitAtLiteral?.go.eq_def, hnone]
        rfl
      rw [hgo, splitAtLiteral?_go_eq, ih hs' hcrosses', Option.map_map]
      simp [Function.comp_def]

/-- What holds no separator stands in front of the first one behind it. -/
theorem splitAtLiteral?_append_of_not_mem {c : Char} {s : Text} (hs : c ∉ s) (rest : Text)
    : splitAtLiteral? [c] (s ++ rest)
      = (splitAtLiteral? [c] rest).map fun found => (s ++ found.1, found.2) := by
  refine splitAtLiteral?_append_left ?_ ?_
  · rw [hasLiteral_iff]
    exact fun h => hs (h.subset List.mem_cons_self)
  · rintro ⟨front, back, hfront, hback, heq, -⟩
    have hlength := congrArg List.length heq
    have := List.length_pos_iff.mpr hfront
    have := List.length_pos_iff.mpr hback
    rw [List.length_append, List.length_singleton] at hlength
    omega

/-- In front of a separator stands the first one. -/
theorem exists_splitAtLiteral? {c : Char} (s rest : Text)
    : ∃ before left, splitAtLiteral? [c] (s ++ c :: rest) = some (before, left)
      ∧ rest <:+ left := by
  by_cases hmem : c ∈ s
  · obtain ⟨front, behind, rfl, hfront⟩ := List.eq_append_cons_of_mem hmem
    refine ⟨front, behind ++ c :: rest, ?_, ⟨behind ++ [c], by simp⟩⟩
    rw [List.append_assoc, List.cons_append, splitAtLiteral?_cons hfront]
  · exact ⟨s, rest, splitAtLiteral?_cons hmem rest, List.suffix_rfl⟩

-----------------------------------------------------------------------------------------
-- Literals of which case is ignored
-----------------------------------------------------------------------------------------

/-- Only letters fold to another character. -/
theorem eq_of_foldChar_eq {c d : Char} (hd : d.isLower = false) (h : foldChar c = d) : c = d := by
  subst h
  have hascii : ∀ n < 128, (foldChar (Char.ofNat n)).isLower = false
      → Char.ofNat n = foldChar (Char.ofNat n) := by
    with_unfolding_all decide
  by_cases hc : c.val < 128
  · exact forall_ascii (P := fun c => (foldChar c).isLower = false → c = foldChar c) hascii hc hd
  · unfold foldChar at hd ⊢
    rw [if_neg hc] at hd ⊢
    split at hd
    · cases hd
    · split at hd
      · cases hd
      · split at hd
        · cases hd
        · simp [*]

/-- Behind a text that folds to a literal stands what is left. -/
theorem dropFolded?_append {literal s : Text} (h : literal = s.map foldChar) (rest : Text)
    : dropFolded? literal (s ++ rest) = some rest := by
  subst h
  induction s with
  | nil => rfl
  | cons c s ih => simpa [dropFolded?] using ih

/-- What begins a text begins it with more behind it. -/
theorem dropFolded?_append_right {literal s rest : Text}
    (h : dropFolded? literal s = some rest) (more : Text)
    : dropFolded? literal (s ++ more) = some (rest ++ more) := by
  induction literal generalizing s with
  | nil =>
      cases h
      rfl
  | cons p literal ih =>
      cases s with
      | nil => cases h
      | cons c s =>
          unfold dropFolded? at h
          rw [List.cons_append, dropFolded?]
          split at h
          · next hc => rw [if_pos hc, ih h]
          · cases h

/-- A literal is found in front of what cannot stand in it if a word begins with it. -/
theorem dropFolded?_append_cons {literal word s : Text} {d : Char}
    (hd : foldChar d ∉ literal)
    : dropFolded? literal (word ++ d :: s)
      = if literal <+: word.map foldChar then some (word.drop literal.length ++ d :: s)
        else none := by
  induction literal generalizing word with
  | nil => simp [dropFolded?]
  | cons p literal ih =>
      rw [List.mem_cons, not_or] at hd
      cases word with
      | nil => simp [dropFolded?, Ne.symm hd.1]
      | cons c word =>
          rw [List.cons_append, dropFolded?, ih hd.2]
          by_cases hp : p = foldChar c <;> simp [hp, List.cons_prefix_cons]

/-- The head that a literal is dropped from, by induction over the literal. -/
theorem exists_of_dropFolded? {literal s rest : Text} (h : dropFolded? literal s = some rest)
    : s = s.take literal.length ++ rest ∧ (s.take literal.length).map foldChar = literal := by
  induction literal generalizing s with
  | nil =>
      cases h
      exact ⟨rfl, rfl⟩
  | cons p literal ih =>
      cases s with
      | nil => cases h
      | cons c s =>
          unfold dropFolded? at h
          split at h
          · next hc =>
              obtain ⟨hs, hliteral⟩ := ih h
              rw [List.length_cons, List.take_succ_cons, List.map_cons, hliteral, ← hc]
              exact ⟨congrArg (c :: ·) hs, rfl⟩
          · cases h

theorem isSome_dropFolded?_iff {literal s : Text}
    : (dropFolded? literal s).isSome ↔ literal <+: s.map foldChar := by
  constructor
  · intro h
    obtain ⟨rest, hrest⟩ := Option.isSome_iff_exists.mp h
    obtain ⟨hs, hliteral⟩ := exists_of_dropFolded? hrest
    rw [hs, List.map_append, hliteral]
    exact List.prefix_append _ _
  · rintro ⟨more, hmore⟩
    obtain ⟨front, back, rfl, hfront, -⟩ := List.map_eq_append_iff.mp hmore.symm
    rw [dropFolded?_append hfront.symm]
    rfl

end SvgKit.Text
