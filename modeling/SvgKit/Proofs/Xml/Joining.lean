import SvgKit.Proofs.Xml.Extension

/-! The tokens of two texts that are read one after the other: they are those of each, except where
the first text ends in character data that goes on in the second one.
-/

namespace SvgKit.Xml

/-- All tokens are character data as it stands. -/
def AreText (tokens : List Token) : Prop := ∀ token ∈ tokens, ∃ s ahead, token = .text s ahead

/-- The tokens of two texts one after the other, where character data meets. -/
structure Joined (before behind all : List Token) : Prop where
  exists_parts : ∃ front text₁ text₂ text back, before = front ++ text₁ ∧ behind = text₂ ++ back
    ∧ all = front ++ (text ++ back) ∧ AreText text₁ ∧ AreText text₂ ∧ AreText text

theorem AreText.nil : AreText [] := by simp [AreText]

/-- A text that is read begins with an item. -/
theorem exists_readTokens?_of_tokens? {c : Char} {s : Text} {tokens : List Token}
    (h : tokens? (c :: s) = some tokens)
    : ∃ first rest more, readTokens? (c :: s) = some (first, rest) ∧ tokens? rest = some more
      ∧ tokens = first ++ more := by
  cases hread : readTokens? (c :: s) with
  | none =>
      rw [tokens?, tokensAfter?] at h
      split at h
      · contradiction
      · split at h
        · next hsome =>
            rw [hread] at hsome
            cases hsome
        · cases h
  | some found =>
      obtain ⟨first, rest⟩ := found
      rw [tokens?_of_readTokens? hread, Option.map_eq_some_iff] at h
      obtain ⟨more, hmore, rfl⟩ := h
      exact ⟨first, rest, more, rfl, hmore, rfl⟩

-----------------------------------------------------------------------------------------
-- Character data
-----------------------------------------------------------------------------------------

/-- A text that is read has no `]]>` in the character data at its head. -/
theorem exists_text_of_tokens? {s : Text} {tokens : List Token} (h : tokens? s = some tokens)
    : ¬ Text.hasLiteral "]]>" (s.takeWhile isData)
      ∧ ∃ text back, tokens = text ++ back ∧ AreText text
        ∧ tokens? (s.dropWhile isData) = some back := by
  have hnil : ¬ Text.hasLiteral "]]>" [] := by simp [Text.hasLiteral_iff, Text.ofString]
  cases s with
  | nil => exact ⟨hnil, [], tokens, rfl, .nil, h⟩
  | cons c s =>
      by_cases hc : isData c
      · obtain ⟨text, rest, back, hread, hback, rfl⟩ := exists_readTokens?_of_tokens? h
        rw [readTokens?_of_isData hc] at hread
        obtain rfl := rest_of_readDataAfter? hread
        refine ⟨fun hliteral => ?_, text, back, rfl,
          eq_text_of_mem_readDataAfter? hread (by simp), hback⟩
        rw [readData?, readDataAfter?_eq_none_iff.mpr hliteral] at hread
        cases hread
      · rw [List.takeWhile_cons_of_neg hc, List.dropWhile_cons_of_neg hc]
        exact ⟨hnil, [], tokens, rfl, .nil, h⟩

/-- Character data without `]]>` is read in front of what is behind it. -/
theorem exists_tokens?_of_text {s : Text} {back : List Token}
    (hno : ¬ Text.hasLiteral "]]>" (s.takeWhile isData))
    (h : tokens? (s.dropWhile isData) = some back)
    : ∃ text, AreText text ∧ tokens? s = some (text ++ back) := by
  cases s with
  | nil => exact ⟨[], .nil, h⟩
  | cons c s =>
      by_cases hc : isData c
      · obtain ⟨⟨text, rest⟩, hread⟩ := Option.ne_none_iff_exists'.mp
          ((@readDataAfter?_eq_none_iff [] _).not.mpr hno)
        obtain rfl := rest_of_readDataAfter? hread
        refine ⟨text, eq_text_of_mem_readDataAfter? hread (by simp), ?_⟩
        rw [tokens?_of_readTokens? ((readTokens?_of_isData hc s).trans hread), h]
        rfl
      · rw [List.dropWhile_cons_of_neg hc] at h
        exact ⟨[], .nil, h⟩

/-- No item consists of one character that is no character data. -/
theorem readTokens?_singleton {c : Char} (hc : isData c = false) : readTokens? [c] = none := by
  by_cases hlt : c = '<'
  · subst hlt
    rfl
  · by_cases hamp : c = '&'
    · subst hamp
      rfl
    · simp [readTokens?, hc]

/-- A text that is read is read as before with more text behind it, up to the character data that
it ends in. The induction is on its length.
-/
theorem exists_data_of_tokens? {s : Text} {tokens : List Token} (h : tokens? s = some tokens)
    : ∃ front text data, tokens = front ++ text ∧ AreText text ∧ data <:+ s
      ∧ (∀ c ∈ data, isData c) ∧ ¬ Text.hasLiteral "]]>" data
      ∧ ∀ more, tokens? (s ++ more) = (tokens? (data ++ more)).map (front ++ ·) := by
  have hnil : ¬ Text.hasLiteral "]]>" [] := by simp [Text.hasLiteral_iff, Text.ofString]
  induction hlength : s.length using Nat.strong_induction_on generalizing s tokens with
  | _ length ih =>
      cases s with
      | nil =>
          rw [tokens?_nil] at h
          cases h
          exact ⟨[], [], [], rfl, .nil, List.suffix_rfl, by simp, hnil, by simp⟩
      | cons c s =>
          obtain ⟨first, rest, behind, hread, hbehind, rfl⟩ := exists_readTokens?_of_tokens? h
          -- all of the text is character data, or what is read first is complete
          by_cases hdata : isData c ∧ rest = []
          · obtain ⟨hc, rfl⟩ := hdata
            obtain ⟨hno, text, back, heq, htext, hback⟩ := exists_text_of_tokens? h
            rw [readTokens?_of_isData hc] at hread
            have hrest := rest_of_readDataAfter? hread
            rw [← hrest, tokens?_nil] at hback
            cases hback
            have hall : (c :: s).takeWhile isData = c :: s := by
              have := List.takeWhile_append_dropWhile (p := isData) (l := c :: s)
              rwa [← hrest, List.append_nil] at this
            rw [hall] at hno
            exact ⟨[], text, c :: s, by simpa using heq, htext, List.suffix_rfl,
              fun x hx => List.mem_takeWhile_imp (hall.symm ▸ hx), hno, by simp⟩
          · have hshorter := length_readTokens? hread
            obtain ⟨front, text, data, rfl, htext, hsuffix, hall, hno, hextend⟩ :=
              ih _ (hlength ▸ hshorter) hbehind rfl
            refine ⟨first ++ front, text, data, by rw [List.append_assoc], htext,
              hsuffix.trans (readTokens?_cases hread).1, hall, hno, fun more => ?_⟩
            have hcomplete : (∀ x ∈ (c :: s).head?, isData x = false)
                ∨ ∃ x y left, rest = x :: y :: left := by
              by_cases hc : isData c
              · cases rest with
                | nil => exact absurd ⟨hc, rfl⟩ hdata
                | cons x left =>
                    cases left with
                    | cons y left => exact .inr ⟨x, y, left, rfl⟩
                    | nil =>
                        rw [readTokens?_of_isData hc] at hread
                        have hx := stops_dropWhile x (by rw [← rest_of_readDataAfter? hread]; rfl)
                        obtain ⟨_, _, _, hnone, -⟩ := exists_readTokens?_of_tokens? hbehind
                        rw [readTokens?_singleton hx] at hnone
                        cases hnone
              · exact .inl (by simpa using hc)
            rw [tokens?_of_readTokens? (readTokens?_extend hread hcomplete more), hextend,
              Option.map_map]
            simp [Function.comp_def]

-----------------------------------------------------------------------------------------
-- Two texts
-----------------------------------------------------------------------------------------

section Two

variable {s rest : Text} {before : List Token}

theorem takeWhile_data_append {data : Text} (hall : ∀ c ∈ data, isData c) (rest : Text)
    : (data ++ rest).takeWhile isData = data ++ rest.takeWhile isData
      ∧ (data ++ rest).dropWhile isData = rest.dropWhile isData :=
  ⟨List.takeWhile_append_of_pos hall, List.dropWhile_append_of_pos hall⟩

/-- Where two texts are read together, and the first one by itself, the second one is too. -/
theorem exists_joined_of_tokens? {all : List Token} (hs : tokens? s = some before)
    (h : tokens? (s ++ rest) = some all)
    : ∃ behind, tokens? rest = some behind ∧ Joined before behind all := by
  obtain ⟨front, text₁, data, rfl, htext₁, -, hall, -, hextend⟩ := exists_data_of_tokens? hs
  rw [hextend, Option.map_eq_some_iff] at h
  obtain ⟨more, hmore, rfl⟩ := h
  obtain ⟨htake, hdrop⟩ := takeWhile_data_append hall rest
  obtain ⟨hno, text, back, rfl, htext, hback⟩ := exists_text_of_tokens? hmore
  rw [htake] at hno
  rw [hdrop] at hback
  have hno' : ¬ Text.hasLiteral "]]>" (rest.takeWhile isData) := by
    rw [Text.hasLiteral_iff] at hno ⊢
    exact fun hmore => hno (hmore.trans (List.suffix_append _ _).isInfix)
  obtain ⟨text₂, htext₂, hrest⟩ := exists_tokens?_of_text hno' hback
  exact ⟨_, hrest, front, text₁, text₂, text, back, rfl, rfl, rfl, htext₁, htext₂, htext⟩

/-- Two texts that are read by themselves are read together if no `]]>` comes about. -/
theorem exists_tokens?_append {behind : List Token} (hs : tokens? s = some before)
    (hrest : tokens? rest = some behind) (hcrosses : ¬ Text.Crosses "]]>" s rest)
    : ∃ all, tokens? (s ++ rest) = some all ∧ Joined before behind all := by
  obtain ⟨front, text₁, data, rfl, htext₁, hsuffix, hall, hdata, hextend⟩ :=
    exists_data_of_tokens? hs
  obtain ⟨hno, text₂, back, rfl, htext₂, hback⟩ := exists_text_of_tokens? hrest
  obtain ⟨htake, hdrop⟩ := takeWhile_data_append hall rest
  have hcrosses' : ¬ Text.Crosses "]]>" data (rest.takeWhile isData) := by
    rintro ⟨x, y, hx, hy, heq, hfront, hback⟩
    exact hcrosses ⟨x, y, hx, hy, heq, hfront.trans hsuffix, hback.trans (List.takeWhile_prefix _)⟩
  have hno' : ¬ Text.hasLiteral "]]>" ((data ++ rest).takeWhile isData) := by
    rw [htake, Text.hasLiteral_append_iff hcrosses']
    exact not_or.mpr ⟨hdata, hno⟩
  obtain ⟨text, htext, hmore⟩ := exists_tokens?_of_text hno' (hdrop ▸ hback)
  exact ⟨front ++ (text ++ back), by rw [hextend, hmore]; rfl, front, text₁, text₂, text, back,
    rfl, rfl, rfl, htext₁, htext₂, htext⟩

end Two

end SvgKit.Xml
