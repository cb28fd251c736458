import SvgKit.Proofs.Markup.Regular
import SvgKit.Proofs.Text.Ascii

/-! Texts that differ only in words behind blanks are scanned alike: where nothing is read in the
one, nothing is read in the other.
-/

namespace SvgKit.Markup

-----------------------------------------------------------------------------------------
-- Word characters
-----------------------------------------------------------------------------------------

theorem isBlank_of_isWord {c : Char} (h : Text.isWord c) : Text.isBlank c = false := by
  have hascii : ∀ n < 128, Text.isBlank (Char.ofNat n) → !Text.isWord (Char.ofNat n) := by
    decide +kernel
  have hwide : Text.wideBlanks.all fun c => !Text.isWord c := by decide +kernel
  by_contra hblank
  have hword := Text.of_isBlank hascii hwide (Bool.not_eq_false _ ▸ hblank)
  rw [h] at hword
  cases hword

theorem isBlank_of_isTagChar {c : Char} (h : isTagChar c) : Text.isBlank c = false := by
  simp only [isTagChar, Bool.or_eq_true, beq_iff_eq] at h
  rcases h with ((h | rfl) | rfl) | rfl
  · exact isBlank_of_isWord h
  · decide
  · decide
  · decide

theorem isNameChar_of_isWord {c : Char} (h : Text.isWord c) : isNameChar c := by
  have hne {d : Char} (hd : Text.isWord d = false) : c ≠ d := by
    rintro rfl
    rw [hd] at h
    cases h
  simp only [isNameChar, isBlank_of_isWord h, Bool.not_false, Bool.true_and, Bool.and_eq_true,
    bne_iff_ne]
  exact ⟨⟨⟨⟨hne (by decide), hne (by decide)⟩, hne (by decide)⟩, hne (by decide)⟩, hne (by decide)⟩

-----------------------------------------------------------------------------------------
-- Other words
-----------------------------------------------------------------------------------------

/-- A text, and the text with words of letters and digits in the place of words behind blanks. The
flag tells if a blank stands in front of the texts.
-/
inductive Reworded : Bool → Text → Text → Prop where
  | nil {spaced : Bool} : Reworded spaced [] []
  | char {spaced : Bool} (c : Char) {s s' : Text} (h : Reworded (Text.isBlank c) s s')
    : Reworded spaced (c :: s) (c :: s')
  | word {word word' s s' : Text} (hne : word ≠ []) (hword : ∀ c ∈ word, isNameChar c)
      (hne' : word' ≠ []) (hword' : ∀ c ∈ word', Text.isWord c) (h : Reworded false s s')
    : Reworded true (word ++ s) (word' ++ s')

/-- Two readers find nothing, or both find something and leave texts that differ in words. -/
inductive Alike {α : Type} (spaced : Bool) : Option (α × Text) → Option (α × Text) → Prop where
  | none : Alike spaced none none
  | some {a a' : α} {s s' : Text} (h : Reworded spaced s s')
    : Alike spaced (some (a, s)) (some (a', s'))

section Alike

variable {α β : Type} {spaced : Bool} {x x' : Option (α × Text)}

theorem Alike.map (h : Alike spaced x x') (f f' : α → β)
    : Alike spaced (x.map fun found => (f found.1, found.2))
        (x'.map fun found => (f' found.1, found.2)) := by
  cases h with
  | none => exact .none
  | some h => exact .some h

end Alike

section Spans

variable {p : Char → Bool} {spaced : Bool} {s s' : Text}

theorem Reworded.mono (h : Reworded false s s') : Reworded spaced s s' := by
  cases h with
  | nil => exact .nil
  | char c h => exact .char c h

/-- The same text stands in front of both. -/
theorem Reworded.append (h : Reworded false s s') (front : Text)
    : Reworded spaced (front ++ s) (front ++ s') := by
  induction front generalizing spaced with
  | nil => exact h.mono
  | cons c front ih => exact .char c ih

/-- The blanks at the head of the texts are the same, by induction over them. -/
theorem Reworded.span_blank (h : Reworded spaced s s')
    : s.takeWhile Text.isBlank = s'.takeWhile Text.isBlank
      ∧ Reworded true (s.dropWhile Text.isBlank) (s'.dropWhile Text.isBlank) := by
  induction h with
  | nil => exact ⟨rfl, .nil⟩
  | char c h ih =>
      by_cases hc : Text.isBlank c
      · simp only [List.takeWhile_cons_of_pos hc, List.dropWhile_cons_of_pos hc, ih.1]
        exact ⟨trivial, ih.2⟩
      · rw [List.takeWhile_cons_of_neg hc, List.takeWhile_cons_of_neg hc,
          List.dropWhile_cons_of_neg hc, List.dropWhile_cons_of_neg hc]
        exact ⟨rfl, .char c h⟩
  | @word _ _ s s' hne hword hne' hword' h ih =>
      have hblank := stops_of_forall (fun c hc => isBlank_of_isNameChar hc) hne hword s
      have hblank' := stops_of_forall (fun c hc => isBlank_of_isNameChar hc) hne'
        (fun c hc => isNameChar_of_isWord (hword' c hc)) s'
      rw [hblank.takeWhile, hblank'.takeWhile, hblank.dropWhile, hblank'.dropWhile]
      exact ⟨rfl, .word hne hword hne' hword' h⟩

variable (hblank : ∀ c, p c → Text.isBlank c = false)
include hblank

/-- What begins the texts without a blank is the same, by induction over it. -/
theorem Reworded.span (h : Reworded spaced s s') (hspaced : spaced = false)
    : s.takeWhile p = s'.takeWhile p ∧ Reworded false (s.dropWhile p) (s'.dropWhile p) := by
  induction h with
  | nil => exact ⟨rfl, .nil⟩
  | char c h ih =>
      by_cases hc : p c
      · obtain ⟨htake, hdrop⟩ := ih (hblank c hc)
        simp only [List.takeWhile_cons_of_pos hc, List.dropWhile_cons_of_pos hc]
        exact ⟨congrArg _ htake, hdrop⟩
      · simp only [List.takeWhile_cons_of_neg hc, List.dropWhile_cons_of_neg hc]
        exact ⟨trivial, .char c h⟩
  | word => cases hspaced

/-- Words differ where a word may stand, but not in whether there is one. -/
theorem Reworded.span_word (hname : ∀ c, isNameChar c → p c) (h : Reworded true s s')
    : (s.takeWhile p = [] ↔ s'.takeWhile p = [])
      ∧ Reworded false (s.dropWhile p) (s'.dropWhile p) := by
  cases h with
  | nil => exact ⟨.rfl, .nil⟩
  | char c h =>
      have hspan := Reworded.span hblank (.char c h) rfl
      exact ⟨by rw [hspan.1], hspan.2⟩
  | word hne hword hne' hword' h =>
      have hspan := Reworded.span hblank h rfl
      have hall := fun c hc => hname c (hword c hc)
      have hall' := fun c hc => hname c (isNameChar_of_isWord (hword' c hc))
      rw [List.takeWhile_append_of_pos hall, List.takeWhile_append_of_pos hall',
        List.dropWhile_append_of_pos hall, List.dropWhile_append_of_pos hall']
      exact ⟨by simp [hne, hne'], hspan.2⟩

end Spans

-----------------------------------------------------------------------------------------
-- Attributes
-----------------------------------------------------------------------------------------

section Attributes

variable {spaced : Bool} {s s' : Text}

/-- The texts are split at the same quote, by induction over them. -/
theorem Reworded.splitAtLiteral? {quote : Char} (hquote : isQuote quote)
    (h : Reworded spaced s s')
    : Alike false (Text.splitAtLiteral? [quote] s) (Text.splitAtLiteral? [quote] s') := by
  have hquote' : isNameChar quote = false ∧ Text.isBlank quote = false := by
    simp only [isQuote, Bool.or_eq_true, beq_iff_eq] at hquote
    rcases hquote with rfl | rfl <;> decide
  have hnot {word : Text} (hword : ∀ c ∈ word, isNameChar c) : quote ∉ word := by
    intro hmem
    have hname := hword quote hmem
    rw [hquote'.1] at hname
    cases hname
  induction h with
  | nil => exact .none
  | @char _ c s s' h ih =>
      by_cases hc : quote = c
      · subst hc
        rw [hquote'.2] at h
        have hsplit (s : Text) := @Text.splitAtLiteral?_cons quote [] (by simp) s
        simp only [List.nil_append] at hsplit
        rw [hsplit, hsplit]
        exact .some h
      · have hsplit (s : Text) :=
          @Text.splitAtLiteral?_append_of_not_mem quote [c] (by simpa using hc) s
        simp only [List.singleton_append] at hsplit
        rw [hsplit, hsplit]
        exact ih.map _ _
  | word hne hword hne' hword' h ih =>
      have hname' := fun c hc => isNameChar_of_isWord (hword' c hc)
      rw [Text.splitAtLiteral?_append_of_not_mem (hnot hword),
        Text.splitAtLiteral?_append_of_not_mem (hnot hname')]
      exact ih.map _ _

/-- An equals sign is read in both texts, and where it ends a word may stand. -/
theorem Reworded.readEquals? (h : Reworded spaced s s')
    : Alike true (readEquals? s) (readEquals? s') := by
  have hnone {s : Text} (hs : AssignsNothing s) : Markup.readEquals? s = none :=
    readEquals?_eq_none hs.head?
  have hequals : ∀ c, isNameChar c → (c == '=') = false := fun _ hc => ne_equals_of_isNameChar hc
  have hrest := h.span_blank.2
  generalize hs : s.dropWhile Text.isBlank = rest at hrest
  generalize hs' : s'.dropWhile Text.isBlank = rest' at hrest
  cases hrest with
  | nil =>
      rw [hnone (by simp [AssignsNothing, Stops, hs]), hnone (by simp [AssignsNothing, Stops, hs'])]
      exact .none
  | char c h =>
      by_cases hc : c = '='
      · subst hc
        simp only [Markup.readEquals?, hs, hs']
        exact .some h.span_blank.2
      · rw [hnone (by simpa [AssignsNothing, Stops, hs] using hc),
          hnone (by simpa [AssignsNothing, Stops, hs'] using hc)]
        exact .none
  | word hne hword hne' hword' =>
      have hname' := fun c hc => isNameChar_of_isWord (hword' c hc)
      rw [hnone (by rw [AssignsNothing, hs]; exact stops_of_forall hequals hne hword _),
        hnone (by rw [AssignsNothing, hs']; exact stops_of_forall hequals hne' hname' _)]
      exact .none

/-- A value is read in both texts. -/
theorem Reworded.readValue? (h : Reworded true s s')
    : Alike false (readValue? bareInTag s) (readValue? bareInTag s') := by
  have hbare (h : Reworded true s s') (hs : Stops isQuote s) (hs' : Stops isQuote s')
      : Alike false (Markup.readValue? bareInTag s) (Markup.readValue? bareInTag s') := by
    obtain ⟨hempty, hrest⟩ := h.span_word (fun c hc => isBlank_of_isBareChar hc)
      fun c hc => isBareChar_of_isNameChar hc
    rw [readValue?_of_stops hs, readValue?_of_stops hs']
    split
    · next hnil =>
        rw [if_pos (hempty.mp hnil)]
        exact .none
    · next hnil =>
        rw [if_neg (hempty.not.mp hnil)]
        exact .some hrest
  have hquote : ∀ c, isNameChar c → isQuote c = false := fun c hc =>
    isQuote_of_isBareChar (isBareChar_of_isNameChar hc)
  cases h with
  | nil => exact .none
  | char c h =>
      by_cases hc : isQuote c
      · have hquoted : (c = '"' || c = '\'') := by simpa [isQuote] using hc
        simp only [Markup.readValue?, if_pos hquoted]
        exact (h.splitAtLiteral? hc).map (c :: · ++ [c]) (c :: · ++ [c])
      · exact hbare (.char c h) (by simpa [Stops] using hc) (by simpa [Stops] using hc)
  | word hne hword hne' hword' h =>
      have hname' := fun c hc => isNameChar_of_isWord (hword' c hc)
      exact hbare (.word hne hword hne' hword' h) (stops_of_forall hquote hne hword _)
        (stops_of_forall hquote hne' hname' _)

/-- What is assigned is read in both texts. -/
theorem Reworded.readAssigned? (h : Reworded spaced s s')
    : Alike false (readAssigned? bareInTag s) (readAssigned? bareInTag s') := by
  have hequals := h.readEquals?
  unfold Markup.readAssigned?
  generalize Markup.readEquals? s = x at hequals
  generalize Markup.readEquals? s' = x' at hequals
  cases hequals with
  | none => exact .none
  | @some equals equals' rest rest' h => exact h.readValue?.map (equals, ·) (equals', ·)

/-- An attribute is read in both texts. -/
theorem Reworded.readAttribute? (h : Reworded true s s')
    : Alike false (readAttribute? bareInTag s) (readAttribute? bareInTag s') := by
  obtain ⟨hempty, hrest⟩ := h.span_word (fun c hc => isBlank_of_isNameChar hc) fun _ hc => hc
  have hassigned := hrest.readAssigned?
  unfold Markup.readAttribute?
  simp only [List.isEmpty_iff]
  split
  · next hnil =>
      rw [if_pos (hempty.mp hnil)]
      exact .none
  · next hnil =>
      rw [if_neg (hempty.not.mp hnil)]
      generalize Markup.readAssigned? bareInTag (s.dropWhile isNameChar) = x at hassigned
      generalize Markup.readAssigned? bareInTag (s'.dropWhile isNameChar) = x' at hassigned
      cases hassigned with
      | none => exact .some hrest
      | some h => exact .some h

/-- As many attributes are read in both texts, by induction on the length of the first one. -/
theorem Reworded.readAttributesAfter (h : Reworded false s s')
    (done done' : List (Text × Attribute))
    : Reworded false (readAttributesAfter bareInTag done s).2
        (readAttributesAfter bareInTag done' s').2 := by
  induction hn : s.length using Nat.strongRecOn generalizing s s' done done' with
  | _ n ih =>
      subst hn
      obtain ⟨hblanks, hrest⟩ := h.span_blank
      have hread := hrest.readAttribute?
      rw [readAttributesAfter_eq, readAttributesAfter_eq done', ← hblanks]
      split
      · exact h
      · generalize hx : Markup.readAttribute? bareInTag (s.dropWhile Text.isBlank) = x at hread
        generalize Markup.readAttribute? bareInTag (s'.dropWhile Text.isBlank) = x' at hread
        cases hread with
        | none => exact h
        | some hleft =>
            have hless := length_readAttribute? hx
            have := (List.dropWhile_sublist (p := Text.isBlank) (l := s)).length_le
            exact ih _ (by omega) hleft _ _ rfl

end Attributes

-----------------------------------------------------------------------------------------
-- Tags
-----------------------------------------------------------------------------------------

section Tags

variable {s s' : Text}

/-- A tag ends in both texts. -/
theorem Reworded.readTagEnd? (h : Reworded false s s')
    : Alike false (readTagEnd? s) (readTagEnd? s') := by
  have hrest := h.span_blank.2
  unfold Markup.readTagEnd?
  generalize s.dropWhile Text.isBlank = rest at hrest
  generalize s'.dropWhile Text.isBlank = rest' at hrest
  cases hrest with
  | nil => exact .none
  | char c h =>
      by_cases hbracket : c = '>'
      · subst hbracket
        exact .some h
      · by_cases hslash : c = '/'
        · subst hslash
          change Reworded false _ _ at h
          cases h with
          | nil => exact .none
          | char d h =>
              by_cases hd : d = '>'
              · subst hd
                exact .some h
              · simpa [hd] using Alike.none
        · simpa [hbracket, hslash] using Alike.none
  | word hne hword hne' hword' =>
      have hends {c : Char} (hc : isNameChar c) : c ≠ '>' ∧ c ≠ '/' := by
        simp only [isNameChar, Bool.and_eq_true, bne_iff_ne] at hc
        exact ⟨hc.1.1.2, hc.1.1.1.2⟩
      obtain ⟨c, word, rfl⟩ := List.exists_cons_of_ne_nil hne
      obtain ⟨c', word', rfl⟩ := List.exists_cons_of_ne_nil hne'
      have hc := hends (hword c List.mem_cons_self)
      have hc' := hends (isNameChar_of_isWord (hword' c' List.mem_cons_self))
      simpa [hc, hc'] using Alike.none

/-- A tag has the same name in both texts. -/
theorem Reworded.readTagName? (h : Reworded false s s')
    : Alike false (readTagName? s) (readTagName? s') := by
  have hrest := h.span (fun _ hc => isBlank_of_isTagChar hc) rfl
  have hhead : s.head? = s'.head? := by
    cases h <;> rfl
  unfold Markup.readTagName?
  rw [← hhead]
  split
  · exact .none
  · split
    · exact .some hrest.2
    · exact .none

theorem Reworded.readStartTag?_eq_none (h : Reworded false s s') (hs : readStartTag? s = none)
    : readStartTag? s' = none := by
  have hname := h.readTagName?
  unfold readStartTag? at hs ⊢
  generalize Markup.readTagName? s = x at hname hs
  generalize Markup.readTagName? s' = x' at hname
  cases hname with
  | none => rfl
  | @some name name' behind behind' hbehind =>
      have hend := (hbehind.readAttributesAfter [] []).readTagEnd?
      simp only [readAttributes] at hs ⊢
      generalize Markup.readTagEnd? _ = y at hend hs
      generalize Markup.readTagEnd? _ = y' at hend
      cases hend with
      | none => rfl
      | some => cases hs

end Tags

-----------------------------------------------------------------------------------------
-- Items
-----------------------------------------------------------------------------------------

section Items

variable {spaced : Bool} {literal s s' : Text}

/-- A literal without blanks begins a text if it begins the other one, by induction over it. -/
theorem Reworded.exists_of_append {rest' : Text} (h : Reworded false s (literal ++ rest'))
    (hliteral : literal.all (!Text.isBlank ·))
    : ∃ rest, s = literal ++ rest ∧ Reworded false rest rest' := by
  induction literal generalizing s with
  | nil => exact ⟨s, rfl, h⟩
  | cons c literal ih =>
      rw [List.all_cons, Bool.and_eq_true, Bool.not_eq_true'] at hliteral
      rw [List.cons_append] at h
      cases h with
      | char c h =>
          rw [hliteral.1] at h
          obtain ⟨rest, rfl, hrest⟩ := ih h hliteral.2
          exact ⟨rest, rfl, hrest⟩

/-- A literal without blanks, letters and digits stands in a text if it stands in the other one. The
induction is over the words.
-/
theorem Reworded.hasLiteral (h : Reworded spaced s s')
    (hliteral : literal.all fun c => !Text.isBlank c && !Text.isWord c) (hne : literal ≠ [])
    (hs' : Text.hasLiteral literal s')
    : Text.hasLiteral literal s := by
  have hchars : ∀ c ∈ literal, Text.isBlank c = false ∧ Text.isWord c = false := by
    simpa using hliteral
  clear hliteral
  induction h with
  | nil => exact hs'
  | @char _ c s s' h ih =>
      simp only [Text.hasLiteral_iff] at ih hs' ⊢
      rw [List.infix_cons_iff] at hs' ⊢
      refine hs'.imp (fun hbegins => ?_) ih
      obtain ⟨x, literal, rfl⟩ := List.exists_cons_of_ne_nil hne
      obtain ⟨rfl, rest', hs'⟩ := List.cons_prefix_cons.mp hbegins
      obtain ⟨hx, hchars⟩ := List.forall_mem_cons.mp hchars
      rw [hx.1, ← hs'] at h
      obtain ⟨rest, rfl, -⟩ :=
        h.exists_of_append (List.all_eq_true.mpr fun c hc => by simp [(hchars c hc).1])
      exact ⟨rest, rfl⟩
  | @word _ word' _ _ _ _ _ hword' h ih =>
      have hother : ∀ c ∈ word', c ∉ literal := by
        intro c hc hmem
        have := hword' c hc
        rw [(hchars c hmem).2] at this
        cases this
      have hrest := ih ((Text.hasLiteral_append_of_forall hother hne _).mp hs')
      rw [Text.hasLiteral_iff] at hrest ⊢
      exact hrest.trans (List.suffix_append _ _).isInfix

/-- Where nothing is read in a text nothing is read in the other one. -/
theorem Reworded.readItem?_eq_none (h : Reworded false s s') (hs : readItem? s = none)
    : readItem? s' = none := by
  -- A literal splits the one text if it splits the other one.
  have hsplit {literal inner inner' : Text} (hinner : Reworded false inner inner')
      (hliteral : literal.all fun c => !Text.isBlank c && !Text.isWord c) (hne : literal ≠ [])
      (hnone : Text.splitAtLiteral? literal inner = none)
      : Text.splitAtLiteral? literal inner' = none := by
    by_contra hsome
    have := hinner.hasLiteral hliteral hne (Option.isSome_iff_ne_none.mpr hsome)
    rw [Text.hasLiteral, hnone] at this
    cases this
  rw [Option.eq_none_iff_forall_ne_some]
  rintro ⟨item, rest⟩ hread
  cases item with
  | comment body =>
      have htext := eq_of_readItem? hread
      rw [Item.text, List.append_assoc, List.append_assoc] at htext
      subst htext
      obtain ⟨inner, rfl, hinner⟩ := h.exists_of_append (by decide +kernel)
      rw [readItem?_comment, Option.map_eq_none_iff] at hs
      rw [readItem?_comment, hsplit hinner (by decide +kernel)
        (by decide +kernel) hs] at hread
      cases hread
  | data body =>
      have htext := eq_of_readItem? hread
      rw [Item.text, List.append_assoc, List.append_assoc] at htext
      subst htext
      obtain ⟨inner, rfl, hinner⟩ := h.exists_of_append (by decide +kernel)
      rw [readItem?_data, Option.map_eq_none_iff] at hs
      rw [readItem?_data, hsplit hinner (by decide +kernel)
        (by decide +kernel) hs] at hread
      cases hread
  | tag t =>
      obtain ⟨inner', rfl, hstart'⟩ := exists_readStartTag? hread
      obtain ⟨behind, hname, -⟩ := exists_of_readStartTag? hstart'
      obtain ⟨c, more', rfl, hc, -⟩ := exists_of_readTagName? hname
      have hmark : c ≠ '!' := by
        rintro rfl
        exact absurd hc (by decide)
      have hblank := isBlank_of_isTagChar (isTagChar_of_isTagStart hc)
      obtain ⟨inner, rfl, hinner⟩ := @Reworded.exists_of_append ['<', c] s more' h
        (by rw [List.all_cons, List.all_cons, hblank]; rfl)
      change readItem? ('<' :: c :: inner) = none at hs
      rw [readItem?_of_ne hmark, Option.map_eq_none_iff] at hs
      rw [Reworded.readStartTag?_eq_none (.char c (hblank ▸ hinner)) hs] at hstart'
      cases hstart'

end Items

end SvgKit.Markup
