import SvgKit.Markup.Rewrite
import SvgKit.Proofs.Text.Ascii
import SvgKit.Proofs.Text.Splitting

/-! Start tags as they have been read: where their names and their attributes end.
-/

namespace SvgKit.Markup

/-- No item begins without a bracket. -/
theorem readItem?_eq_none {c : Char} (hc : c ≠ '<') (s : Text) : readItem? (c :: s) = none := by
  simp [readItem?, Text.dropLiteral?, Text.ofString, hc.symm]

/-- Where neither a comment nor a section begins, an item is a start tag. -/
theorem readItem?_of_ne {c : Char} (hc : c ≠ '!') (s : Text)
    : readItem? ('<' :: c :: s) = (readStartTag? (c :: s)).map fun x => (.tag x.1, x.2) := by
  have hcomment : Text.dropLiteral? "<!--" ('<' :: c :: s) = none := by
    simp [Text.dropLiteral?, Text.ofString, hc.symm]
  have hdata : Text.dropLiteral? "<![CDATA[" ('<' :: c :: s) = none := by
    simp [Text.dropLiteral?, Text.ofString, hc.symm]
  have hopen : Text.dropLiteral? ['<'] ('<' :: c :: s) = some (c :: s) := by
    simp [Text.dropLiteral?]
  simp only [readItem?, hcomment, hdata, hopen]

/-- What is known of a start tag that has been read: its name ends in front of what stands behind
it, and its attributes are separated by blanks.
-/
structure StartTag.IsRead (t : StartTag) : Prop where
  name : ∃ c s, t.name = c :: s ∧ isTagStart c
  behind : Stops isTagChar (attributesText t.attributes ++ t.close)
  blanks : ∀ a ∈ t.attributes, a.1 ≠ []
  close : ∃ blanks, (∀ c ∈ blanks, Text.isBlank c)
    ∧ (t.close = blanks ++ ['>'] ∨ t.close = blanks ++ ['/', '>'])

/-- Blanks are read before every attribute, by induction over the reading. -/
theorem ne_nil_of_mem_readAttributes {bare : Char → Text → Bool} {s : Text}
    : ∀ a ∈ (readAttributes bare s).1, a.1 ≠ [] := by
  suffices ∀ done : List (Text × Attribute), (∀ a ∈ done, a.1 ≠ []) →
      ∀ a ∈ (readAttributesAfter bare done s).1, a.1 ≠ [] from this [] (by simp)
  intro done hdone
  fun_induction readAttributesAfter bare done s with
  | case1 => simpa using hdone
  | case2 done s blanks hne a rest hread ih =>
      refine ih (List.forall_mem_cons.mpr ⟨?_, hdone⟩)
      simpa using hne
  | case3 => simpa using hdone

theorem exists_of_readTagEnd? {s close rest : Text} (h : readTagEnd? s = some (close, rest))
    : ∃ blanks, (∀ c ∈ blanks, Text.isBlank c)
      ∧ (close = blanks ++ ['>'] ∨ close = blanks ++ ['/', '>']) := by
  have hblanks : ∀ c ∈ s.takeWhile Text.isBlank, Text.isBlank c := fun c hc =>
    List.mem_takeWhile_imp hc
  unfold readTagEnd? at h
  dsimp only at h
  split at h
  · cases h
    exact ⟨_, hblanks, .inl rfl⟩
  · cases h
    exact ⟨_, hblanks, .inr rfl⟩
  · cases h

theorem isTagChar_of_isTagStart {c : Char} (h : isTagStart c) : isTagChar c := by
  rw [isTagStart, Bool.or_eq_true, beq_iff_eq] at h
  have hascii : c.val < 128 := by
    rcases h with h | rfl
    · exact Text.lt_of_isAlpha h
    · decide
  rw [isTagChar, Text.isWord, if_pos hascii, Char.isAlphanum]
  rcases h with h | rfl
  · simp [h]
  · rfl

/-- A tag name is all that can be read of it. -/
theorem exists_of_readTagName? {s name behind : Text} (h : readTagName? s = some (name, behind))
    : ∃ c more, s = c :: more ∧ isTagStart c ∧ name = s.takeWhile isTagChar
      ∧ behind = s.dropWhile isTagChar := by
  unfold readTagName? at h
  split at h
  · cases h
  · next c hhead =>
      split at h
      · next hc =>
          obtain ⟨more, hs⟩ := List.head?_eq_some_iff.mp hhead
          obtain ⟨rfl, rfl⟩ := Prod.mk.inj (Option.some.inj h)
          exact ⟨c, more, hs, hc, rfl, rfl⟩
      · cases h

/-- What is read of a start tag behind its bracket. -/
theorem exists_of_readStartTag? {s rest : Text} {t : StartTag}
    (h : readStartTag? s = some (t, rest))
    : ∃ behind, readTagName? s = some (t.name, behind)
      ∧ t.attributes = (readAttributes bareInTag behind).1
      ∧ readTagEnd? (readAttributes bareInTag behind).2 = some (t.close, rest) := by
  unfold readStartTag? at h
  split at h
  · cases h
  · next name behind hname =>
      split at h
      · cases h
      · next close left hend =>
          cases h
          exact ⟨behind, hname, rfl, hend⟩

theorem exists_readStartTag? {s rest : Text} {t : StartTag}
    (h : readItem? s = some (.tag t, rest))
    : ∃ inner, s = '<' :: inner ∧ readStartTag? inner = some (t, rest) := by
  unfold readItem? at h
  split at h
  · simp at h
  · split at h
    · simp at h
    · split at h
      · next inner hdrop =>
          obtain ⟨⟨t, left⟩, hread, heq⟩ := Option.map_eq_some_iff.mp h
          cases heq
          exact ⟨inner, Text.dropLiteral?_eq_some_iff.mp hdrop, hread⟩
      · cases h

theorem isRead_of_readItem? {s rest : Text} {t : StartTag}
    (h : readItem? s = some (.tag t, rest))
    : t.IsRead := by
  obtain ⟨inner, -, hstart⟩ := exists_readStartTag? h
  obtain ⟨behind, hname, hattributes, hend⟩ := exists_of_readStartTag? hstart
  have htext := readAttributes_append bareInTag behind
  rw [eq_of_readTagEnd? hend, ← List.append_assoc, ← hattributes] at htext
  obtain ⟨c, more, hinner, hc, htag, hbehind⟩ := exists_of_readTagName? hname
  rw [hinner, List.takeWhile_cons_of_pos (isTagChar_of_isTagStart hc)] at htag
  refine ⟨⟨c, _, htag, hc⟩, ?_, ?_, exists_of_readTagEnd? hend⟩
  · intro d hd
    rw [hbehind] at htext
    refine stops_dropWhile (s := inner) d ?_
    rw [← htext, List.head?_append, Option.mem_def.mp hd]
    rfl
  · rw [hattributes]
    exact ne_nil_of_mem_readAttributes

variable {t : StartTag} (ht : t.IsRead)
include ht

/-- A tag stands in brackets. -/
theorem StartTag.IsRead.exists_text : ∃ inner, t.text = '<' :: (inner ++ ['>']) := by
  obtain ⟨blanks, -, hclose | hclose⟩ := ht.close
  · exact ⟨t.name ++ attributesText t.attributes ++ blanks, by simp [StartTag.text, hclose]⟩
  · exact ⟨t.name ++ attributesText t.attributes ++ blanks ++ ['/'], by simp [StartTag.text, hclose]⟩

theorem StartTag.IsRead.exists_behind
    : ∃ d more, attributesText t.attributes ++ t.close = d :: more ∧ isTagChar d = false := by
  have hne : attributesText t.attributes ++ t.close ≠ [] := by
    obtain ⟨blanks, -, hclose | hclose⟩ := ht.close <;> simp [hclose]
  obtain ⟨d, more, heq⟩ := List.exists_cons_of_ne_nil hne
  exact ⟨d, more, heq, ht.behind d (by rw [heq]; rfl)⟩

/-- Rewriting keeps what stands between attributes. -/
theorem StartTag.IsRead.rewrite (f : Rewriter) : (t.rewrite f).IsRead := by
  refine ⟨ht.name, ?_, ?_, ht.close⟩
  · intro d hd
    refine ht.behind d ?_
    cases hattributes : t.attributes with
    | nil => simpa [StartTag.rewrite, hattributes] using hd
    | cons a attributes =>
        obtain ⟨c, blanks, hblanks⟩ := List.exists_cons_of_ne_nil (ht.blanks a (by simp [hattributes]))
        simpa [StartTag.rewrite, hattributes, attributesText, hblanks] using hd
  · intro a ha
    obtain ⟨b, hb, rfl⟩ := List.mem_map.mp ha
    exact ht.blanks b hb

end SvgKit.Markup
