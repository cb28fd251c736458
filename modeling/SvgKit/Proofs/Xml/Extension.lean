import SvgKit.Proofs.Text.Searching
import SvgKit.Proofs.Xml.Occurrence

/-! More text behind what a reader leaves changes nothing of what it reads: the same is read, and
the text is left with what was added. Names and runs of characters have to end in the text for
that.
-/

namespace SvgKit.Xml

open Text (dropLiteral?_extend splitAtLiteral?_extend)

-----------------------------------------------------------------------------------------
-- Names and references
-----------------------------------------------------------------------------------------

section Names

variable {s rest : Text}

theorem dropSpace_extend {c : Char} (h : dropSpace s = c :: rest) (more : Text)
    : dropSpace (s ++ more) = c :: (rest ++ more) :=
  dropWhile_extend h more

theorem readName?_extend {name : Text} {c : Char} (h : readName? s = some (name, c :: rest))
    (more : Text)
    : readName? (s ++ more) = some (name, c :: (rest ++ more)) := by
  cases s with
  | nil => cases h
  | cons first s =>
      unfold readName? at h
      dsimp only at h
      split at h
      · next hfirst =>
          simp only [Option.some.injEq, Prod.mk.injEq] at h
          rw [List.cons_append, readName?, if_pos hfirst, ← List.cons_append,
            dropWhile_extend h.2, takeWhile_extend h.2, h.1]
      · cases h

theorem readFullName?_extend {name : Text} {c : Char}
    (h : readFullName? s = some (name, c :: rest)) (more : Text)
    : readFullName? (s ++ more) = some (name, c :: (rest ++ more)) := by
  cases s with
  | nil => cases h
  | cons first s =>
      unfold readFullName? at h
      dsimp only at h
      split at h
      · next hfirst =>
          simp only [Option.some.injEq, Prod.mk.injEq] at h
          rw [List.cons_append, readFullName?, if_pos hfirst, ← List.cons_append,
            dropWhile_extend h.2, takeWhile_extend h.2, h.1]
      · cases h

theorem readSpelling?_extend {name : Spelling} {c : Char}
    (h : readSpelling? s = some (name, c :: rest)) (more : Text)
    : readSpelling? (s ++ more) = some (name, c :: (rest ++ more)) := by
  unfold readSpelling? at h
  split at h
  · cases h
  · next first behind hfirst =>
      rw [readSpelling?, readName?_extend hfirst]
      split at h
      · cases h
      · cases h
      · next second left hcolon hsecond =>
          cases h
          have hc : c ≠ ':' := fun heq => hcolon rest (by rw [heq])
          simp [readName?_extend hsecond, hc]
  · next first left hcolon hfirst =>
      cases h
      have hc : c ≠ ':' := fun heq => hcolon rest (by rw [heq])
      rw [readSpelling?, readName?_extend hfirst]
      simp [hc]

theorem readCode?_extend {base : Nat} {isDigit : Char → Bool} {r : Reference}
    (h : readCode? base isDigit s = some (r, rest)) (more : Text)
    : readCode? base isDigit (s ++ more) = some (r, rest ++ more) := by
  unfold readCode? at h
  split at h
  · next left hs =>
      obtain ⟨c, hc, heq⟩ := Option.map_eq_some_iff.mp h
      cases heq
      rw [readCode?, dropWhile_extend hs, takeWhile_extend hs]
      dsimp only
      rw [hc]
      rfl
  · cases h

theorem readReference?_extend {r : Reference} (h : readReference? s = some (r, rest))
    (more : Text)
    : readReference? (s ++ more) = some (r, rest ++ more) := by
  unfold readReference? at h
  split at h
  · exact readCode?_extend h more
  · next s hx =>
      cases s with
      | nil => cases h
      | cons c s =>
          rw [List.cons_append, List.cons_append, readReference?]
          · exact readCode?_extend h more
          · intro t ht
            obtain ⟨rfl, -⟩ := List.cons.inj ht
            exact hx s rfl
  · split at h
    · next name left hname =>
        rw [eq_of_readFullName? hname, List.append_assoc, List.cons_append,
          readReference?_append (isFullName_of_readFullName? hname)]
        split at h <;>
        · cases h
          simp [*]
    · cases h

end Names

-----------------------------------------------------------------------------------------
-- Comments, instructions and sections
-----------------------------------------------------------------------------------------

section Items

variable {s rest : Text}

theorem afterComment?_extend (h : afterComment? s = some rest) (more : Text)
    : afterComment? (s ++ more) = some (rest ++ more) := by
  unfold afterComment? at h
  split at h
  · next content left hs =>
      split at h
      · next hcontent =>
          cases h
          rw [afterComment?, splitAtLiteral?_extend hs]
          simp [hcontent]
      · cases h
  · cases h

theorem afterInstruction?_extend (h : afterInstruction? s = some rest) (more : Text)
    : afterInstruction? (s ++ more) = some (rest ++ more) := by
  unfold afterInstruction? at h
  split at h
  · cases h
  · next target behind htarget =>
      split at h
      · cases h
      · next hreserved =>
          split at h
          · cases h
          · next content left hs =>
              split at h
              · next hcontent =>
                  cases h
                  cases behind with
                  | nil => exact absurd (Text.eq_of_splitAtLiteral? hs) (by simp [Text.ofString])
                  | cons c behind =>
                      have hsplit := splitAtLiteral?_extend hs more
                      rw [List.cons_append] at hsplit
                      rw [afterInstruction?, readFullName?_extend htarget]
                      simp [hreserved, hsplit, hcontent]
              · cases h

theorem readSection?_extend {content : Text} (h : readSection? s = some (content, rest))
    (more : Text)
    : readSection? (s ++ more) = some (content, rest ++ more) := by
  unfold readSection? at h
  split at h
  · cases h
  · next hs =>
      split at h
      · next hcontent =>
          cases h
          rw [readSection?, splitAtLiteral?_extend hs]
          simp [hcontent]
      · cases h

end Items

-----------------------------------------------------------------------------------------
-- Tags
-----------------------------------------------------------------------------------------

section Tags

variable {s rest : Text}

/-- A quoted value is read up to the second quote. -/
theorem readQuoted?_cons {quote : Char} (hquote : quote = '"' ∨ quote = '\'') {spelled : Text}
    (hclosed : quote ∉ spelled) (rest : Text)
    : readQuoted? (quote :: (spelled ++ quote :: rest)) = some (spelled, rest) := by
  have hall : ∀ c ∈ spelled, decide (c ≠ quote) = true := by
    intro c hc
    rw [decide_eq_true_eq]
    rintro rfl
    exact hclosed hc
  rw [readQuoted?, if_pos (by simpa using hquote), List.dropWhile_append_of_pos hall,
    List.takeWhile_append_of_pos hall]
  simp

theorem dropSpace_append {space : Text} (hspace : ∀ c ∈ space, isSpace c) (s : Text)
    : dropSpace (space ++ s) = dropSpace s :=
  List.dropWhile_append_of_pos hspace

theorem isSpace_eq_false_of_quote {quote : Char} (h : quote = '"' ∨ quote = '\'')
    : isSpace quote = false := by
  rcases h with rfl | rfl <;> rfl

/-- An attribute is read whatever stands behind it. -/
theorem Assignment.Sound.readAttribute? {a : Assignment} (ha : a.Sound) (rest : Text)
    : Xml.readAttribute? (a.text ++ rest)
      = (readValue? a.spelled).map fun value => ((a.name, value), rest) := by
  have hequals (s : Text) : dropSpace (a.before ++ '=' :: s) = '=' :: s := by
    rw [dropSpace_append ha.before, dropSpace_cons rfl]
  have hquote (s : Text) : dropSpace (a.behind ++ a.quote :: s) = a.quote :: s := by
    rw [dropSpace_append ha.behind, dropSpace_cons (isSpace_eq_false_of_quote ha.quote)]
  have htext : a.text ++ rest = a.name.text ++ (a.before ++ '=' :: (a.behind
      ++ a.quote :: (a.spelled ++ a.quote :: rest))) := by
    simp [Assignment.text]
  have hbehind : ∃ c s, c ∈ delimiters ∧ a.before ++ '=' :: (a.behind
      ++ a.quote :: (a.spelled ++ a.quote :: rest)) = c :: s := by
    cases hbefore : a.before with
    | nil => exact ⟨'=', _, by decide, rfl⟩
    | cons c s =>
        exact ⟨c, _, isSpace_mem_delimiters (ha.before c (by simp [hbefore])), rfl⟩
  obtain ⟨c, s, hc, hs⟩ := hbehind
  rw [htext, Xml.readAttribute?, hs, readSpelling?_append ha.name hc, ← hs]
  simp only [hequals, hquote, readQuoted?_cons ha.quote ha.closed]

/-- What has been read as an attribute is read as one whatever stands behind it. -/
theorem exists_text_of_readAttribute? {a : Spelling × Value} (h : readAttribute? s = some (a, rest))
    : ∃ t, s = t ++ rest ∧ t ≠ [] ∧ ∀ more, readAttribute? (t ++ more) = some (a, more) := by
  obtain ⟨b, hb, -, -, rfl⟩ := exists_assignment (show _ = some ((a.1, a.2), rest) from h)
  rw [hb.readAttribute?] at h
  obtain ⟨value, hvalue, heq⟩ := Option.map_eq_some_iff.mp h
  refine ⟨b.text, rfl, by simp [Assignment.text], fun more => ?_⟩
  rw [hb.readAttribute?, hvalue, Option.map_some, ← (Prod.mk.inj heq).1]

theorem readAttribute?_extend {a : Spelling × Value} (h : readAttribute? s = some (a, rest))
    (more : Text)
    : readAttribute? (s ++ more) = some (a, rest ++ more) := by
  obtain ⟨t, rfl, -, hread⟩ := exists_text_of_readAttribute? h
  rw [List.append_assoc, hread]

/-- No attribute begins with a delimiter. -/
theorem readAttribute?_delimiter {c : Char} (hc : c ∈ delimiters) (s : Text)
    : readAttribute? (c :: s) = none := by
  have hstart : isNameStart c = false := by
    rw [Bool.eq_false_iff]
    exact fun h => not_mem_delimiters_of_isNameStart h hc
  simp [readAttribute?, readSpelling?, readName?, hstart]

section Attributes

variable {done : List (Spelling × Value)} {c : Char} (hc : isSpace c)
include hc

/-- Behind white space the next attribute is read. -/
theorem readAttributesAfter?_of_read {a : Spelling × Value}
    (h : readAttribute? (dropSpace s) = some (a, rest))
    : readAttributesAfter? done (c :: s) = readAttributesAfter? (a :: done) rest := by
  rw [readAttributesAfter?]
  · simp only [hc, ↓reduceIte]
    split
    · next hsome =>
        rw [h] at hsome
        cases hsome
        rfl
    · next hnone =>
        rw [h] at hnone
        cases hnone
  · rintro rfl
    cases hc
  · rintro _ rfl
    cases hc

/-- Where no attribute is read behind white space, the tag ends there. -/
theorem readAttributesAfter?_of_read_none (h : readAttribute? (dropSpace s) = none)
    : readAttributesAfter? done (c :: s)
      = match dropSpace s with
        | '>' :: rest => some ((done.reverse, false), rest)
        | '/' :: '>' :: rest => some ((done.reverse, true), rest)
        | _ => none := by
  rw [readAttributesAfter?]
  · simp only [hc, ↓reduceIte]
    split
    · next hsome =>
        rw [h] at hsome
        cases hsome
    · rfl
  · rintro rfl
    cases hc
  · rintro _ rfl
    cases hc

end Attributes

theorem readAttributesAfter?_extend {done given : List (Spelling × Value)} {isEmpty : Bool}
    (h : readAttributesAfter? done s = some ((given, isEmpty), rest)) (more : Text)
    : readAttributesAfter? done (s ++ more) = some ((given, isEmpty), rest ++ more) := by
  fun_induction readAttributesAfter? done s with
  | case1 =>
      cases h
      simp [readAttributesAfter?]
  | case2 =>
      cases h
      simp [readAttributesAfter?]
  | case3 done c s _ _ hc a left ha ih =>
      have hread : readAttribute? (dropSpace (s ++ more)) = some (a, left ++ more) := by
        cases hs : dropSpace s with
        | nil =>
            rw [hs] at ha
            cases ha
        | cons x t =>
            rw [dropSpace_extend hs, ← List.cons_append, ← hs]
            exact readAttribute?_extend ha more
      rw [List.cons_append, readAttributesAfter?_of_read hc hread]
      exact ih h
  | case4 done c s _ _ hc ha left hs =>
      cases h
      have hs := dropSpace_extend hs more
      rw [List.cons_append, readAttributesAfter?_of_read_none hc, hs]
      · rfl
      · rw [hs]
        exact readAttribute?_delimiter (by decide) _
  | case5 done c s _ _ hc ha left hs =>
      cases h
      have hs := dropSpace_extend hs more
      rw [List.cons_append, readAttributesAfter?_of_read_none hc, hs]
      · rfl
      · rw [hs]
        exact readAttribute?_delimiter (by decide) _
  | case6 | case7 | case8 => cases h

theorem readStart?_extend {token : Token} (h : readStart? s = some (token, rest)) (more : Text)
    : readStart? (s ++ more) = some (token, rest ++ more) := by
  unfold readStart? at h
  split at h
  · cases h
  · next name behind hname =>
      obtain ⟨⟨⟨given, isEmpty⟩, left⟩, hread, heq⟩ := Option.map_eq_some_iff.mp h
      cases heq
      cases behind with
      | nil => simp [readAttributesAfter?] at hread
      | cons c behind =>
          have hread := readAttributesAfter?_extend hread more
          rw [List.cons_append] at hread
          rw [readStart?, readSpelling?_extend hname]
          dsimp only
          rw [hread]
          rfl

theorem readFinish?_extend {token : Token} (h : readFinish? s = some (token, rest))
    (more : Text)
    : readFinish? (s ++ more) = some (token, rest ++ more) := by
  unfold readFinish? at h
  split at h
  · cases h
  · next name behind hname =>
      split at h
      · next left hleft =>
          cases h
          cases behind with
          | nil => cases hleft
          | cons c behind =>
              have hleft := dropSpace_extend hleft more
              rw [List.cons_append] at hleft
              rw [readFinish?, readSpelling?_extend hname]
              simp [hleft]
      · cases h

end Tags

-----------------------------------------------------------------------------------------
-- Character data
-----------------------------------------------------------------------------------------

theorem isData_of_isPlain {c : Char} (h : isPlain c) : isData c := by
  have hne {d : Char} (hd : isPlain d = false) : c ≠ d := by
    rintro rfl
    rw [hd] at h
    cases h
  simp [isData, isChar_of_isPlain h, hne (d := '<') (by decide), hne (d := '&') (by decide)]

theorem textToken?_eq_none_iff {s rest : Text}
    : textToken? s rest = none ↔ Text.hasLiteral "]]>" s := by
  unfold textToken?
  split
  · next hempty =>
      obtain rfl := List.isEmpty_iff.mp hempty
      simp [Text.hasLiteral_iff, Text.ofString]
  · split <;> simp [*]

/-- A segment ends in front of a line end of two characters. -/
theorem readDataAfter?_of_lineEnd {done : List (List Token)} {s more : Text}
    (hs : s.dropWhile isPlain = '\r' :: '\n' :: more)
    : readDataAfter? done s
      = (textToken? (s.takeWhile isPlain) ('\r' :: '\n' :: more)).bind fun tokens =>
        if continuesLine more then readDataAfter? (tokens :: done) ('\n' :: more)
        else readDataAfter?.last (tokens :: done) ('\n' :: more) := by
  rw [readDataAfter?]
  split
  · next hs' =>
      obtain rfl : _ = more := by simpa [hs] using hs'.symm
      cases textToken? (s.takeWhile isPlain) ('\r' :: '\n' :: _) <;> rfl
  · next hs' => exact absurd hs (hs' more)

/-- In front of anything else the last segment begins. -/
theorem readDataAfter?_of_ne {done : List (List Token)} {s : Text}
    (hs : ∀ more, s.dropWhile isPlain ≠ '\r' :: '\n' :: more)
    : readDataAfter? done s
      = (textToken? (s.takeWhile isPlain) (s.dropWhile isPlain)).bind fun tokens =>
        readDataAfter?.last (tokens :: done) (s.dropWhile isPlain) := by
  rw [readDataAfter?]
  split
  · next hs' => exact absurd hs' (hs _)
  · cases textToken? (s.takeWhile isPlain) (s.dropWhile isPlain) <;> rfl

theorem rest_of_readDataAfter? {done : List (List Token)} {s rest : Text} {tokens : List Token}
    (h : readDataAfter? done s = some (tokens, rest))
    : rest = s.dropWhile isData := by
  have hplain (s : Text) : s.dropWhile isData = (s.dropWhile isPlain).dropWhile isData := by
    conv_lhs => rw [← List.takeWhile_append_dropWhile (p := isPlain) (l := s)]
    exact List.dropWhile_append_of_pos fun c hc => isData_of_isPlain (List.mem_takeWhile_imp hc)
  fun_induction readDataAfter? done s with
  | case1 | case4 => cases h
  | case2 done s segment more hs segmentTokens _ _ ih =>
      rw [ih h, hplain s, hs, List.dropWhile_cons_of_pos (a := '\r') (by decide)]
  | case3 done s segment more hs segmentTokens _ _ =>
      rw [rest_of_last h, hplain s, hs, List.dropWhile_cons_of_pos (a := '\r') (by decide)]
  | case5 done s segment _ _ _ => rw [rest_of_last h, hplain s]

theorem takeWhile_isData_eq (s : Text)
    : s.takeWhile isData = s.takeWhile isPlain ++ (s.dropWhile isPlain).takeWhile isData := by
  conv_lhs => rw [← List.takeWhile_append_dropWhile (p := isPlain) (l := s)]
  exact List.takeWhile_append_of_pos fun c hc => isData_of_isPlain (List.mem_takeWhile_imp hc)

/-- Character data is read if `]]>` does not stand in it, by induction over its segments. -/
theorem readDataAfter?_eq_none_iff {done : List (List Token)} {s : Text}
    : readDataAfter? done s = none ↔ Text.hasLiteral "]]>" (s.takeWhile isData) := by
  have hsplit (s : Text) : Text.hasLiteral "]]>" (s.takeWhile isData)
      ↔ Text.hasLiteral "]]>" (s.takeWhile isPlain)
        ∨ Text.hasLiteral "]]>" ((s.dropWhile isPlain).takeWhile isData) := by
    rw [takeWhile_isData_eq]
    refine Text.hasLiteral_append_iff (Text.not_crosses_of_head fun c hc hmem => ?_)
    have hstop : isPlain c = false := by
      cases hs : s.dropWhile isPlain with
      | nil => simp [hs] at hc
      | cons d rest =>
          rw [hs, List.takeWhile_cons] at hc
          have hd : isPlain d = false := stops_dropWhile (p := isPlain) (s := s) d (by rw [hs]; rfl)
          split at hc
          · cases hc
            exact hd
          · cases hc
    have : ("]]>" : Text).all isPlain := by with_unfolding_all decide
    rw [List.all_eq_true.mp this c hmem] at hstop
    cases hstop
  have hlast (done : List (List Token)) (s : Text)
      : readDataAfter?.last done s = none ↔ Text.hasLiteral "]]>" (s.takeWhile isData) := by
    rw [readDataAfter?.last, Option.map_eq_none_iff, textToken?_eq_none_iff]
  have hreturn (more : Text)
      : Text.hasLiteral "]]>" (('\r' :: '\n' :: more).takeWhile isData)
        ↔ Text.hasLiteral "]]>" (('\n' :: more).takeWhile isData) := by
    rw [List.takeWhile_cons_of_pos (by decide)]
    exact Text.hasLiteral_cons_iff (by simp [Text.ofString]) (by simp [Text.ofString])
  have hno {s rest : Text} {tokens : List Token} (h : textToken? s rest = some tokens)
      : ¬ Text.hasLiteral "]]>" s := by
    intro hliteral
    rw [textToken?_eq_none_iff.mpr hliteral] at h
    cases h
  fun_induction readDataAfter? done s with
  | case1 done s segment more hs hnone | case4 done s segment _ hnone =>
      exact iff_of_true rfl ((hsplit s).mpr (.inl (textToken?_eq_none_iff.mp hnone)))
  | case2 done s segment more hs segmentTokens hsome _ ih =>
      rw [hsplit, hs, hreturn]
      exact ih.trans (or_iff_right (hno hsome)).symm
  | case3 done s segment more hs segmentTokens hsome _ =>
      rw [hsplit, hs, hreturn]
      exact (hlast _ _).trans (or_iff_right (hno hsome)).symm
  | case5 done s segment _ _ hsome =>
      rw [hsplit]
      exact (hlast _ _).trans (or_iff_right (hno hsome)).symm

theorem ofText_extend (c d : Char) (s more : Text)
    : Ahead.ofText (c :: d :: (s ++ more)) = Ahead.ofText (c :: d :: s) := by
  by_cases hc : c = '<'
  · by_cases hd : d = '/' <;> simp [Ahead.ofText, hc, hd]
  · by_cases hc' : c = '\r' <;> simp [Ahead.ofText, hc, hc']

theorem textToken?_extend (segment : Text) (c d : Char) (s more : Text)
    : textToken? segment (c :: d :: (s ++ more)) = textToken? segment (c :: d :: s) := by
  rw [textToken?, textToken?, ofText_extend]

/-- The segments of character data that ends in the text are the same with more text behind them,
by induction over them. What is behind a segment is told from two characters.
-/
theorem readDataAfter?_extend {done : List (List Token)} {s rest : Text} {tokens : List Token}
    {c d : Char} (h : readDataAfter? done s = some (tokens, c :: d :: rest)) (more : Text)
    : readDataAfter? done (s ++ more) = some (tokens, c :: d :: (rest ++ more)) := by
  have hlast {done : List (List Token)} {s : Text}
      (h : readDataAfter?.last done s = some (tokens, c :: d :: rest))
      : readDataAfter?.last done (s ++ more) = some (tokens, c :: d :: (rest ++ more)) := by
    have hs := (rest_of_last h).symm
    obtain ⟨segmentTokens, hsegment, heq⟩ := Option.map_eq_some_iff.mp h
    rw [hs] at hsegment
    rw [readDataAfter?.last, dropWhile_extend hs, takeWhile_extend hs, List.cons_append,
      textToken?_extend, hsegment, Option.map_some, (Prod.mk.inj heq).1]
  fun_induction readDataAfter? done s with
  | case1 | case4 => cases h
  | case2 done s segment behind hs segmentTokens hsegment hcontinues ih =>
      have hs' := dropWhile_extend hs more
      rw [List.cons_append] at hs'
      cases behind with
      | nil => cases hcontinues
      | cons x behind =>
          rw [readDataAfter?_of_lineEnd hs', takeWhile_extend hs, textToken?_extend, hsegment]
          exact (if_pos hcontinues).trans (ih h)
  | case3 done s segment behind hs segmentTokens hsegment hcontinues =>
      have hs' := dropWhile_extend hs more
      rw [List.cons_append] at hs'
      cases behind with
      | nil => cases rest_of_last h
      | cons x behind =>
          rw [readDataAfter?_of_lineEnd hs', takeWhile_extend hs, textToken?_extend, hsegment]
          exact (if_neg hcontinues).trans (hlast h)
  | case5 done s segment segmentTokens hs hsegment =>
      have hrest := rest_of_last h
      cases hbehind : s.dropWhile isPlain with
      | nil =>
          rw [hbehind] at hrest
          cases hrest
      | cons x behind =>
          have hs' := dropWhile_extend hbehind more
          rw [hbehind] at hsegment h hs
          cases behind with
          | nil =>
              have hlength := (List.dropWhile_suffix (l := [x]) isData).length_le
              rw [hbehind] at hrest
              rw [← hrest] at hlength
              simp at hlength
          | cons y behind =>
              rw [readDataAfter?_of_ne, hs', takeWhile_extend hbehind, List.cons_append,
                textToken?_extend, hsegment]
              · exact hlast h
              · intro t ht
                rw [hs', List.cons_append] at ht
                obtain ⟨hx, ht⟩ := List.cons.inj ht
                obtain ⟨hy, -⟩ := List.cons.inj ht
                exact hs behind (by rw [hx, hy])

-----------------------------------------------------------------------------------------
-- All tokens
-----------------------------------------------------------------------------------------

theorem readTokens?_comment (s : Text)
    : readTokens? ('<' :: '!' :: '-' :: '-' :: s)
      = (afterComment? s).map fun rest => ([], rest) := by
  simp [readTokens?]

theorem readTokens?_section (s : Text)
    : readTokens? ('<' :: '!' :: ("[CDATA[" ++ s))
      = (readSection? s).map fun (content, rest) => ([.literal content], rest) := by
  simp [readTokens?, Text.ofString, Text.dropLiteral?]

theorem readTokens?_of_isData {c : Char} (hc : isData c) (s : Text)
    : readTokens? (c :: s) = readData? (c :: s) := by
  have hne {d : Char} (hd : isData d = false) : c ≠ d := by
    rintro rfl
    rw [hd] at hc
    cases hc
  have hlt : c ≠ '<' := hne (by decide)
  have hamp : c ≠ '&' := hne (by decide)
  rw [readTokens?]
  · exact if_pos hc
  all_goals simp [hlt, hamp]

/-- A start tag begins with a character that begins names. -/
theorem exists_of_readStart? {s rest : Text} {token : Token}
    (h : readStart? s = some (token, rest))
    : ∃ c t, s = c :: t ∧ isNameStart c := by
  unfold readStart? at h
  split at h
  · cases h
  · next name behind hname =>
      obtain ⟨c, t, htext, hc⟩ := (sound_of_readSpelling? hname).text_eq_cons
      exact ⟨c, t ++ behind, by rw [(eq_of_readSpelling? hname).1, htext]; rfl, hc⟩

/-- What begins at the head of a text is the same with more text behind it, unless it is character
data that may go on there.
-/
theorem readTokens?_extend {s rest : Text} {tokens : List Token}
    (h : readTokens? s = some (tokens, rest))
    (hdata : (∀ c ∈ s.head?, isData c = false) ∨ ∃ c d left, rest = c :: d :: left)
    (more : Text)
    : readTokens? (s ++ more) = some (tokens, rest ++ more) := by
  unfold readTokens? at h
  split at h
  · obtain ⟨left, hread, heq⟩ := Option.map_eq_some_iff.mp h
    cases heq
    simp [readTokens?, afterInstruction?_extend hread]
  · obtain ⟨left, hread, heq⟩ := Option.map_eq_some_iff.mp h
    cases heq
    simp [readTokens?, afterComment?_extend hread]
  · split at h
    · cases h
    · next behind hopening =>
        obtain ⟨⟨content, left⟩, hread, heq⟩ := Option.map_eq_some_iff.mp h
        cases heq
        rw [Text.dropLiteral?_eq_some_iff.mp hopening, List.cons_append, List.cons_append,
          List.append_assoc, readTokens?_section, readSection?_extend hread]
        rfl
  · obtain ⟨⟨token, left⟩, hread, heq⟩ := Option.map_eq_some_iff.mp h
    cases heq
    simp [readTokens?, readFinish?_extend hread]
  · next s _ _ _ _ =>
      obtain ⟨⟨token, left⟩, hread, heq⟩ := Option.map_eq_some_iff.mp h
      cases heq
      obtain ⟨c, t, rfl, hc⟩ := exists_of_readStart? hread
      have hread := readStart?_extend hread more
      rw [List.cons_append] at hread
      rw [List.cons_append, List.cons_append, readTokens?_name hc, hread]
      rfl
  · obtain ⟨⟨r, left⟩, hread, heq⟩ := Option.map_eq_some_iff.mp h
    cases r <;>
    · cases heq
      simp [readTokens?, readReference?_extend hread]
  · split at h
    · next c s _ _ _ _ _ _ hc =>
        obtain ⟨d, e, left, rfl⟩ : ∃ d e left, rest = d :: e :: left :=
          hdata.resolve_left fun hnot => by simp [hnot c rfl] at hc
        rw [List.cons_append, readTokens?_of_isData hc, ← List.cons_append]
        exact readDataAfter?_extend h more
    · cases h
  · cases h

end SvgKit.Xml
