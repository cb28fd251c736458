import SvgKit.Proofs.Xml.Doctype
import SvgKit.Proofs.Xml.Tag

/-! The text of tags and of character data is read back as the tokens it is made of. -/

namespace SvgKit.Xml

-----------------------------------------------------------------------------------------
-- What a start tag says
-----------------------------------------------------------------------------------------

/-- What a start tag says: a name, and declarations and attributes with their values. -/
structure Tag where
  name : Spelling
  given : List (Spelling × Value)

/-- What stands between the brackets of a start tag. -/
def Tag.text (t : Tag) : Text :=
  t.name.text ++ (t.given.map fun a => (a.1, a.2.flatMap Reference.spelled)).flatMap pairText

/-- A start tag that says names and references of documents. -/
structure Tag.Sound (t : Tag) : Prop where
  name : t.name.Sound
  given : ∀ a ∈ t.given, SoundPair a

/-- A start tag holds no bracket of a tag inside, whatever it says. -/
theorem Tag.Sound.not_mem_text {t : Tag} (ht : t.Sound) {d : Char} (hd : d = '<' ∨ d = '>')
    : d ∉ t.text := by
  intro hmem
  rcases List.mem_append.mp hmem with hmem | hmem
  · refine ht.name.not_mem_text ?_ hmem
    rcases hd with rfl | rfl <;> decide
  · obtain ⟨pair, hpair, hmem⟩ := List.mem_flatMap.mp hmem
    obtain ⟨a, ha, rfl⟩ := List.mem_map.mp hpair
    refine not_mem_pairText (ht.given a ha).1 (fun hmem => ?_) hd hmem
    obtain ⟨r, hr, hc⟩ := List.mem_flatMap.mp hmem
    exact ((ht.given a ha).2 r hr).not_mem_spelled (.inr hd) hc

/-- The value of an attribute as it is spelled. -/
def Attribute.references (a : Attribute) : Value :=
  match a.spelling with
  | none => a.value.map .char
  | some s => (readValue? s).getD []

/-- The attributes have no spelling of their own. -/
def Head.Plain (h : Head) : Prop := ∀ a ∈ h.attributes, a.spelling = none

/-- What the start tag of a head says. -/
def Head.tag (h : Head) : Tag where
  name := h.name.spelling
  given := h.bindings.map (fun b => (b.spelling, b.uri.map .char))
    ++ h.attributes.map fun a => (a.name.spelling, a.references)

theorem flatMap_spelled_char (s : Text)
    : (s.map Reference.char).flatMap Reference.spelled = s.flatMap escapeValue := by
  rw [List.flatMap_map]
  rfl

theorem Attribute.Sound.references {made : List Binding} {a : Attribute} (ha : a.Sound made)
    : (∀ r ∈ a.references, r.Sound) ∧ a.references.flatMap Reference.spelled = a.spelled := by
  unfold Attribute.references spelled
  cases hs : a.spelling with
  | none => exact ⟨List.forall_mem_map.mpr ha.value, flatMap_spelled_char a.value⟩
  | some s =>
      obtain ⟨value, hvalue, -, rfl⟩ := ha.spelling s hs
      dsimp only
      rw [readValue?_spelled hvalue]
      exact ⟨hvalue, rfl⟩

theorem Attribute.references_of_plain {a : Attribute} (h : a.spelling = none)
    : a.references = a.value.map .char := by
  rw [references, h]

section Heads

variable {next : Nat} {made : List Binding} {h : Head}

theorem Head.Sound.tag (hledger : Ledger next made) (hs : h.Sound made) : h.tag.Sound := by
  refine ⟨hs.name.spelling hledger, List.forall_mem_append.mpr ⟨?_, ?_⟩⟩
  · refine List.forall_mem_map.mpr fun b hb => ?_
    obtain ⟨hmem, hxml⟩ := hs.bindings b hb
    exact ⟨hledger.sound_spelling hmem,
      List.forall_mem_map.mpr (hledger.sound_of_mem hmem hxml).uri⟩
  · refine List.forall_mem_map.mpr fun a ha => ?_
    exact ⟨(hs.attributes a ha).name.spelling hledger, (hs.attributes a ha).references.1⟩

theorem Head.Sound.text_tag (hs : h.Sound made) : h.tag.text = h.text := by
  rw [Head.text_eq, Head.tag, Tag.text, List.map_append, List.map_map, List.map_map, Head.pairs]
  congr 3
  · refine List.map_congr_left fun b _ => ?_
    simp [flatMap_spelled_char]
  · refine List.map_congr_left fun a ha => ?_
    simp [(hs.attributes a ha).references.2]

end Heads

-----------------------------------------------------------------------------------------
-- Start tags
-----------------------------------------------------------------------------------------

theorem dropSpace_cons {c : Char} (hc : isSpace c = false) (s : Text)
    : dropSpace (c :: s) = c :: s :=
  List.dropWhile_cons_of_neg (by simp [hc])

theorem dropSpace_spelling {n : Spelling} (hn : n.Sound) (s : Text)
    : dropSpace (n.text ++ s) = n.text ++ s := by
  obtain ⟨c, rest, htext, hc⟩ := hn.text_eq_cons
  rw [htext, List.cons_append]
  refine dropSpace_cons ?_ _
  by_contra hspace
  exact not_mem_delimiters_of_isNameStart hc (isSpace_mem_delimiters (by simpa using hspace))

/-- A value between double quotes is read up to the second one. -/
theorem readQuoted?_append {s : Text} (hs : '"' ∉ s) (rest : Text)
    : readQuoted? ('"' :: (s ++ '"' :: rest)) = some (s, rest) := by
  have hall : ∀ c ∈ s, decide (c ≠ '"') = true := by
    intro c hc
    rw [decide_eq_true_eq]
    rintro rfl
    exact hs hc
  rw [readQuoted?, if_pos (by simp), List.dropWhile_append_of_pos hall,
    List.takeWhile_append_of_pos hall]
  simp

/-- An attribute with a sound name and value is read back. -/
theorem readAttribute?_append {a : Spelling × Value} (hname : a.1.Sound)
    (hvalue : ∀ r ∈ a.2, r.Sound) (rest : Text)
    : readAttribute? (a.1.text ++ '=' :: '"' :: (a.2.flatMap Reference.spelled ++ '"' :: rest))
      = some (a, rest) := by
  have hquote : '"' ∉ a.2.flatMap Reference.spelled := by
    intro hmem
    obtain ⟨r, hr, hc⟩ := List.mem_flatMap.mp hmem
    exact (hvalue r hr).not_mem_spelled (.inl rfl) hc
  have hequals : '=' ∈ delimiters := by decide
  rw [readAttribute?, readSpelling?_append hname hequals]
  simp only [dropSpace_cons (c := '=') (by decide), dropSpace_cons (c := '"') (by decide),
    readQuoted?_append hquote, readValue?_spelled hvalue, Option.map_some]

/-- Attributes are read back up to the end of the tag, by induction over them. -/
theorem readAttributesAfter?_append {given : List (Spelling × Value)}
    (hgiven : ∀ a ∈ given, SoundPair a)
    (done : List (Spelling × Value)) (s : Text)
    : readAttributesAfter? done
        ((given.map fun a => (a.1, a.2.flatMap Reference.spelled)).flatMap pairText ++ s)
      = readAttributesAfter? (given.reverse ++ done) s := by
  induction given generalizing done with
  | nil => rfl
  | cons a given ih =>
      rw [List.forall_mem_cons] at hgiven
      have hspace : isSpace ' ' = true := by decide
      let rest := (given.map fun a => (a.1, a.2.flatMap Reference.spelled)).flatMap pairText ++ s
      have hread := readAttribute?_append hgiven.1.1 hgiven.1.2 rest
      rw [← dropSpace_spelling hgiven.1.1] at hread
      have hstep {after : Text}
          (h : readAttribute? (dropSpace after) = some (a, rest))
          : readAttributesAfter? done (' ' :: after) = readAttributesAfter? (a :: done) rest := by
        rw [readAttributesAfter?]
        · simp only [hspace, ↓reduceIte]
          split
          · next hsome =>
              rw [h] at hsome
              cases hsome
              rfl
          · next hnone =>
              rw [h] at hnone
              cases hnone
        · simp
        · simp
      have htext : (((a :: given).map fun a => (a.1, a.2.flatMap Reference.spelled)).flatMap
            pairText ++ s)
          = ' ' :: (a.1.text ++ '=' :: '"' :: (a.2.flatMap Reference.spelled ++ '"' :: rest)) := by
        simp [rest, pairText, attributeText]
      rw [htext, hstep hread, ih hgiven.2, List.reverse_cons, List.append_assoc]
      rfl

/-- What follows the bracket of a start tag is a name. -/
theorem Tag.Sound.text_eq_cons {t : Tag} (ht : t.Sound)
    : ∃ c rest, t.text = c :: rest ∧ isNameStart c := by
  obtain ⟨c, rest, htext, hc⟩ := ht.name.text_eq_cons
  rw [Tag.text, htext]
  exact ⟨c, _, rfl, hc⟩

theorem readTokens?_name {c : Char} (hc : isNameStart c) (s : Text)
    : readTokens? ('<' :: c :: s)
      = (readStart? (c :: s)).map fun (token, rest) => ([token], rest) := by
  have hne {d : Char} (hd : d ∈ delimiters) : c ≠ d := by
    rintro rfl
    exact not_mem_delimiters_of_isNameStart hc hd
  have hquestion : c ≠ '?' := hne (by decide)
  have hexclamation : c ≠ '!' := hne (by decide)
  have hslash : c ≠ '/' := hne (by decide)
  rw [readTokens?]
  · simp [hquestion]
  · simp [hexclamation]
  · simp [hexclamation]
  · simp [hslash]

/-- A start tag is read back up to what ends it. -/
theorem readTokens?_tag {t : Tag} (ht : t.Sound) {c : Char} (hc : c ∈ delimiters) (rest : Text)
    : readTokens? ('<' :: (t.text ++ c :: rest))
      = (readAttributesAfter? t.given.reverse (c :: rest)).map
        fun ((attributes, isEmpty), rest) => ([.start t.name attributes isEmpty], rest) := by
  have hafter : ∃ d after, d ∈ delimiters
      ∧ (t.given.map fun a => (a.1, a.2.flatMap Reference.spelled)).flatMap pairText ++ c :: rest
        = d :: after := by
    cases t.given with
    | nil => exact ⟨c, rest, hc, rfl⟩
    | cons a given => exact ⟨' ', _, by decide, rfl⟩
  obtain ⟨d, after, hd, hafter⟩ := hafter
  have hattributes := readAttributesAfter?_append ht.given [] (c :: rest)
  rw [List.append_nil] at hattributes
  have hstart : readStart? (t.text ++ c :: rest)
      = (readAttributesAfter? t.given.reverse (c :: rest)).map
        fun ((attributes, isEmpty), rest) => (.start t.name attributes isEmpty, rest) := by
    rw [Tag.text, List.append_assoc, readStart?, hafter, readSpelling?_append ht.name hd]
    dsimp only
    rw [← hafter, hattributes]
  obtain ⟨x, s, htext, hx⟩ := ht.text_eq_cons
  rw [htext, List.cons_append] at hstart ⊢
  rw [readTokens?_name hx, hstart, Option.map_map]
  rfl

theorem readTokens?_start {t : Tag} (ht : t.Sound) (rest : Text)
    : readTokens? ('<' :: (t.text ++ '>' :: rest)) = some ([.start t.name t.given false], rest) := by
  rw [readTokens?_tag ht (by decide), readAttributesAfter?]
  simp

theorem readTokens?_empty {t : Tag} (ht : t.Sound) (rest : Text)
    : readTokens? ('<' :: (t.text ++ '/' :: '>' :: rest))
      = some ([.start t.name t.given true], rest) := by
  rw [readTokens?_tag ht (by decide), readAttributesAfter?]
  simp

theorem readTokens?_finish {n : Spelling} (hn : n.Sound) (rest : Text)
    : readTokens? ('<' :: '/' :: (n.text ++ '>' :: rest)) = some ([.finish n], rest) := by
  rw [readTokens?, readFinish?, readSpelling?_append hn (by decide)]
  · simp [dropSpace_cons (c := '>') (by decide)]

/-- A reference to an entity is read back. -/
theorem readTokens?_entity {name : Text} (hname : IsEntityName name) (rest : Text)
    : readTokens? ('&' :: (name ++ ';' :: rest)) = some ([.entity name], rest) := by
  rw [readTokens?, readReference?_entity hname]
  rfl

-----------------------------------------------------------------------------------------
-- Character data
-----------------------------------------------------------------------------------------

/-- A character that stands for itself in character data. -/
def IsRaw (c : Char) : Prop :=
  isChar c ∧ c ≠ '<' ∧ c ≠ '>' ∧ c ≠ '&' ∧ c ≠ '\r'

/-- The token of a segment, unless it is empty. -/
def segmentTokens (s rest : Text) : List Token :=
  if s.isEmpty then [] else [.text s (.ofText rest)]

theorem unifyLines_of_not_mem {s : Text} (h : '\r' ∉ s) : Text.unifyLines s = s := by
  suffices ∀ done : Text, s.foldl Text.unifyLines.step (done, false) = (s.reverse ++ done, false) by
    rw [Text.unifyLines, this, List.append_nil, List.reverse_reverse]
  induction s with
  | nil => exact fun _ => rfl
  | cons c s ih =>
      intro done
      rw [List.mem_cons, not_or] at h
      have hstep : Text.unifyLines.step (done, false) c = (c :: done, false) := by
        simp [Text.unifyLines.step, Ne.symm h.1]
      rw [List.foldl_cons, hstep, ih h.2, List.reverse_cons, List.append_assoc]
      rfl

theorem textToken?_of_isRaw {s : Text} (h : ∀ c ∈ s, IsRaw c) (rest : Text)
    : textToken? s rest = some (segmentTokens s rest) := by
  unfold textToken? segmentTokens
  have hliteral : Text.hasLiteral "]]>" s = false := by
    by_contra hhas
    rw [Bool.not_eq_false] at hhas
    obtain ⟨⟨before, after⟩, hsplit⟩ := Option.isSome_iff_exists.mp hhas
    have hmem : '>' ∈ s := by
      rw [Text.eq_of_splitAtLiteral? hsplit]
      simp [Text.ofString]
    exact (h '>' hmem).2.2.1 rfl
  have hlines := unifyLines_of_not_mem fun hmem => (h '\r' hmem).2.2.2.2 rfl
  split
  · rfl
  · rw [hliteral, hlines]
    rfl

/-- Character data ends in front of the character given. -/
def EndsData (c : Char) : Prop := c = '<' ∨ c = '&'

theorem EndsData.not_isPlain {c : Char} (h : EndsData c) : isPlain c = false := by
  rcases h with rfl | rfl <;> decide

theorem EndsData.not_isData {c : Char} (h : EndsData c) : isData c = false := by
  rcases h with rfl | rfl <;> decide

theorem takeWhile_append_stop {p : Char → Bool} (s : Text) {c : Char} (hc : p c = false)
    (rest : Text)
    : (s ++ c :: rest).takeWhile p = s.takeWhile p := by
  rw [List.takeWhile_append]
  split
  · next h =>
      rw [List.takeWhile_cons_of_neg (by simp [hc]), List.append_nil,
        (List.takeWhile_sublist p).eq_of_length h]
  · rfl

theorem dropWhile_append_stop {p : Char → Bool} (s : Text) {c : Char} (hc : p c = false)
    (rest : Text)
    : (s ++ c :: rest).dropWhile p = s.dropWhile p ++ c :: rest := by
  rw [List.dropWhile_append]
  split
  · next h =>
      rw [List.dropWhile_cons_of_neg (by simp [hc]), List.isEmpty_iff.mp h, List.nil_append]
  · rfl

/-- Raw character data is read back in two segments: the first one ends where a character
beyond ASCII stands.
-/
theorem readTokens?_data {s : Text} (hs : ∀ c ∈ s, IsRaw c) (hne : s ≠ []) {c : Char}
    (hc : EndsData c) (rest : Text)
    : readTokens? (s ++ c :: rest)
      = some (segmentTokens (s.takeWhile isPlain) (s.dropWhile isPlain ++ c :: rest)
        ++ segmentTokens (s.dropWhile isPlain) (c :: rest), c :: rest) := by
  have hfirst := textToken?_of_isRaw
    (fun x hx => hs x ((List.takeWhile_sublist isPlain).subset hx))
    (s.dropWhile isPlain ++ c :: rest)
  have hbehind : ∀ x ∈ s.dropWhile isPlain, IsRaw x := fun x hx =>
    hs x ((List.dropWhile_sublist isPlain).subset hx)
  have hsecond := textToken?_of_isRaw hbehind (c :: rest)
  have hdata : ∀ x ∈ s.dropWhile isPlain, isData x = true := by
    intro x hx
    obtain ⟨hchar, hlt, -, hamp, -⟩ := hbehind x hx
    simp [isData, hchar, hlt, hamp]
  have hlast (done : List (List Token))
      : readDataAfter?.last done (s.dropWhile isPlain ++ c :: rest)
        = some ((segmentTokens (s.dropWhile isPlain) (c :: rest) :: done).reverse.flatten,
          c :: rest) := by
    have hstop : ¬ isData c = true := by simp [hc.not_isData]
    rw [readDataAfter?.last, List.dropWhile_append_of_pos hdata,
      List.takeWhile_append_of_pos hdata, List.dropWhile_cons_of_neg hstop,
      List.takeWhile_cons_of_neg hstop, List.append_nil, hsecond]
    rfl
  have hread : readData? (s ++ c :: rest)
      = some (segmentTokens (s.takeWhile isPlain) (s.dropWhile isPlain ++ c :: rest)
        ++ segmentTokens (s.dropWhile isPlain) (c :: rest), c :: rest) := by
    have hrest := dropWhile_append_stop s hc.not_isPlain rest
    rw [readData?, readDataAfter?, takeWhile_append_stop s hc.not_isPlain]
    split
    · next more hmore =>
        rw [hrest] at hmore
        cases hdrop : s.dropWhile isPlain with
        | nil =>
            rw [hdrop, List.nil_append, List.cons.injEq] at hmore
            rcases hc with rfl | rfl <;> cases hmore.1
        | cons x after =>
            rw [hdrop, List.cons_append, List.cons.injEq] at hmore
            have hx := hbehind x (hdrop ▸ List.mem_cons_self)
            exact absurd hmore.1 hx.2.2.2.2
    · rw [hrest, hfirst]
      dsimp only
      rw [hlast]
      simp
  cases s with
  | nil => exact absurd rfl hne
  | cons x s =>
      obtain ⟨hchar, hlt, -, hamp, -⟩ := hs x List.mem_cons_self
      have hx : isData x = true := by simp [isData, hchar, hlt, hamp]
      rw [List.cons_append, readTokens?, if_pos hx]
      · exact hread
      all_goals simp [hlt, hamp]

end SvgKit.Xml
