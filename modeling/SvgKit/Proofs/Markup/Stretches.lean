import SvgKit.Markup.CamelCase
import SvgKit.Proofs.Markup.Attribute
import Mathlib.Data.List.Forall2

/-! How the attributes of a start tag are read from stretches of words between blanks: the last
word of a stretch takes the value behind the equals sign, the words in front of it have none.
-/

namespace SvgKit.Markup

-----------------------------------------------------------------------------------------
-- Words in front of others
-----------------------------------------------------------------------------------------

/-- A text begins with characters of a class and goes on with something else. -/
theorem exists_span (p : Char → Bool) (s : Text)
    : ∃ inside behind, s = inside ++ behind ∧ (∀ c ∈ inside, p c) ∧ Stops p behind :=
  ⟨s.takeWhile p, s.dropWhile p, List.takeWhile_append_dropWhile.symm,
    fun _ hc => List.mem_takeWhile_imp hc, stops_dropWhile⟩

/-- A text of words and blanks. -/
def IsStretch (s : Text) : Prop := ∀ c ∈ s, Text.isBlank c ∨ isNameChar c

section Reading

variable {bare : Char → Text → Bool}

/-- What is left of a stretch where all words but the last one have been read: blanks, a word
that no blank stands in front of, or the last word.
-/
inductive Remainder : Text → Prop where
  | blank {s : Text} (h : ∀ c ∈ s, Text.isBlank c) : Remainder s
  | stuck {c : Char} (s : Text) (h : isNameChar c) : Remainder (c :: s)
  | word {blanks word after : Text} (h : IsWord blanks word)
      (hafter : ∀ c ∈ after, Text.isBlank c) : Remainder (blanks ++ (word ++ after))

/-- The words of a stretch in front of what is left of it are read as attributes without a
value.
-/
structure SkipsTo (bare : Char → Text → Bool) (s : Text) (skipped : List (Text × Attribute))
    (left : Text) : Prop where
  values : ∀ a ∈ skipped, a.2.value = none
  text : s = attributesText skipped ++ left
  read : ∀ done behind, EndsStretch behind →
    readAttributesAfter bare done (s ++ behind)
      = readAttributesAfter bare (skipped.reverse ++ done) (left ++ behind)

theorem SkipsTo.refl (s : Text) : SkipsTo bare s [] s :=
  ⟨by simp, rfl, fun _ _ _ => rfl⟩

/-- A word in front of another one is an attribute without a value. -/
theorem SkipsTo.cons {blanks word blanks' s left : Text} {c : Char}
    {skipped : List (Text × Attribute)} (hword : IsWord blanks word)
    (hblanks : ∀ x ∈ blanks', Text.isBlank x) (hstops : Stops isNameChar (blanks' ++ c :: s))
    (hc : isNameChar c) (h : SkipsTo bare (blanks' ++ c :: s) skipped left)
    : SkipsTo bare (blanks ++ (word ++ (blanks' ++ c :: s))) ((blanks, ⟨word, none⟩) :: skipped)
      left := by
  refine ⟨List.forall_mem_cons.mpr ⟨rfl, h.values⟩, ?_, fun done behind hbehind => ?_⟩
  · rw [h.text]
    simp [attributesText, Attribute.text]
  · have hblank : Stops Text.isBlank (c :: (s ++ behind)) := by
      rintro _ ⟨⟩
      exact isBlank_of_isNameChar hc
    have hequals : c ≠ '=' := by
      rintro rfl
      exact absurd hc (by decide)
    have hnone : readAssigned? bare (blanks' ++ c :: (s ++ behind)) = none := by
      refine readAssigned?_eq_none ?_
      rw [dropWhile_append_stops hblanks hblank]
      simpa using hequals
    have hstops' : Stops isNameChar (blanks' ++ c :: (s ++ behind)) := by
      cases blanks' with
      | nil => exact hstops
      | cons x blanks' => exact hstops
    have hread := h.read ((blanks, ⟨word, none⟩) :: done) behind hbehind
    simp only [List.append_assoc, List.cons_append] at hread ⊢
    rw [readAttributesAfter_word hword hstops', hnone]
    simpa using hread

/-- The words of a stretch in front of the last one are read as attributes without a value, by
induction over its length.
-/
theorem exists_remainder (bare : Char → Text → Bool) {s : Text} (hs : IsStretch s)
    : ∃ skipped left, SkipsTo bare s skipped left ∧ Remainder left := by
  induction hn : s.length using Nat.strongRecOn generalizing s with
  | _ n ih =>
      subst hn
      obtain ⟨blanks, words, rfl, hblanks, hwords⟩ := exists_span Text.isBlank s
      have hname {c : Char} {words : Text} (hstops : Stops Text.isBlank (c :: words))
          (hs : IsStretch (c :: words))
          : isNameChar c := by
        rcases hs c List.mem_cons_self with h | h
        · rw [hstops c rfl] at h
          cases h
        · exact h
      cases words with
      | nil => exact ⟨[], _, .refl _, by rw [List.append_nil]; exact .blank hblanks⟩
      | cons c words =>
          have hstretch : IsStretch (c :: words) := fun x hx => hs x (List.mem_append_right _ hx)
          have hc := hname hwords hstretch
          by_cases hnil : blanks = []
          · subst hnil
            exact ⟨[], _, .refl _, .stuck words hc⟩
          · obtain ⟨word, behind, heq, hword, hbehind⟩ := exists_span isNameChar (c :: words)
            have hne : word ≠ [] := by
              rintro rfl
              rw [List.nil_append] at heq
              rw [← heq] at hbehind
              rw [hbehind c rfl] at hc
              cases hc
            have hisWord : IsWord blanks word := ⟨hblanks, hnil, hword, hne⟩
            obtain ⟨after, more, rfl, hafter, hmore⟩ := exists_span Text.isBlank behind
            rw [heq] at hs hstretch ⊢
            cases more with
            | nil => exact ⟨[], _, .refl _, by rw [List.append_nil]; exact .word hisWord hafter⟩
            | cons x more =>
                have hx := hname hmore fun y hy =>
                  hstretch y (List.mem_append_right _ (List.mem_append_right _ hy))
                have hless : (after ++ x :: more).length < (blanks ++ c :: words).length := by
                  have := List.length_pos_iff.mpr hne
                  rw [heq]
                  simp only [List.length_append]
                  omega
                obtain ⟨skipped, left, hskips, hleft⟩ := ih _ hless
                  (fun y hy => hstretch y (List.mem_append_right _ hy)) rfl
                exact ⟨_, left, .cons hisWord hafter hbehind hx hskips, hleft⟩

theorem readTagEnd?_name {s : Text} {c : Char} (hc : isNameChar c)
    : readTagEnd? (c :: s) = none := by
  refine @readTagEnd?_eq_none [] s c (by simp) ⟨isBlank_of_isNameChar hc, ?_, ?_⟩
  · rintro rfl
    exact absurd hc (by decide)
  · rintro rfl
    exact absurd hc (by decide)

/-- Blanks in front of something else are left. -/
theorem readAttributesAfter_left {blanks s : Text} (hblanks : ∀ c ∈ blanks, Text.isBlank c)
    (hs : EndsStretch s) (done : List (Text × Attribute))
    : readAttributesAfter bare done (blanks ++ s) = (done.reverse, blanks ++ s) := by
  by_cases hnil : blanks = []
  · subst hnil
    exact readAttributesAfter_stops hs.stops_blank done
  · rw [readAttributesAfter_blanks hnil hblanks hs.stops_blank,
      readAttribute?_eq_none hs.stops_name]

end Reading

-----------------------------------------------------------------------------------------
-- Names in the form with capitals
-----------------------------------------------------------------------------------------

/-- A hyphenated word in the form with capitals, and any other word as it is. -/
def camelCaseWord (word : Text) : Text := if isKebabCase word then camelCase word else word

/-- A stretch, and the stretch with its last word in the form with capitals. -/
inductive CamelLast : Text → Text → Prop where
  | word (front : Text) {c : Char} {word after : Text} (hc : Text.isBlank c)
      (hword : ∀ x ∈ word, isNameChar x) (hne : word ≠ []) (hafter : ∀ x ∈ after, Text.isBlank x)
    : CamelLast (front ++ c :: (word ++ after)) (front ++ c :: (camelCaseWord word ++ after))

/-- A stretch, and the stretch with its last word in the form with capitals, with the same value. -/
def CamelPair (pair pair' : Text × Text) : Prop := CamelLast pair.1 pair'.1 ∧ pair'.2 = pair.2

/-- Attributes with their names in the form with capitals where they have values in quotes. -/
def camelCaseAll (tag : Text) (attributes : List (Text × Attribute)) : List (Text × Attribute) :=
  attributes.map fun (blanks, a) => (blanks, a.rewrite camelCaseAttribute tag)

theorem camelCaseAll_append (tag : Text) (attributes more : List (Text × Attribute))
    : camelCaseAll tag (attributes ++ more)
      = camelCaseAll tag attributes ++ camelCaseAll tag more :=
  List.map_append

/-- Attributes without values stay as they are. -/
theorem camelCaseAll_eq_self {tag : Text} {attributes : List (Text × Attribute)}
    (h : ∀ a ∈ attributes, a.2.value = none)
    : camelCaseAll tag attributes = attributes := by
  refine (List.map_congr_left fun a ha => ?_).trans attributes.map_id
  obtain ⟨blanks, name, value⟩ := a
  obtain rfl : value = none := h _ ha
  rfl

theorem camelCaseAll_quoted (tag blanks word equals value : Text)
    : camelCaseAll tag [(blanks, ⟨word, some (equals, '"' :: (value ++ ['"']))⟩)]
      = [(blanks, ⟨camelCaseWord word, some (equals, '"' :: (value ++ ['"']))⟩)] := by
  have hname : camelCaseAttribute tag word (some ('"' :: (value ++ ['"'])))
      = (camelCaseWord word, some ('"' :: (value ++ ['"']))) := by
    unfold camelCaseAttribute camelCaseWord
    by_cases h : isKebabCase word <;> simp [isQuoted, h]
  rw [camelCaseAll, List.map_singleton]
  simp [Attribute.rewrite, Attribute.written, hname]

theorem attributesText_append (attributes more : List (Text × Attribute))
    : attributesText (attributes ++ more) = attributesText attributes ++ attributesText more :=
  List.flatMap_append

-----------------------------------------------------------------------------------------
-- Assignments
-----------------------------------------------------------------------------------------

/-- The text of an assignment: a stretch, an equals sign and a value in double quotes. -/
def assignmentText (pair : Text × Text) : Text := pair.1 ++ '=' :: '"' :: (pair.2 ++ ['"'])

/-- The attributes that a stretch and its value are read as, unless the tag cannot be read: the
last word takes the value.
-/
theorem readAttributesAfter_assignment {pair : Text × Text} (hs : IsStretch pair.1)
    (hvalue : '"' ∉ pair.2)
    : (∀ done rest,
        readTagEnd? (readAttributesAfter bareInTag done (assignmentText pair ++ rest)).2 = none)
      ∨ ∃ attributes s', CamelLast pair.1 s'
        ∧ (∀ done rest, readAttributesAfter bareInTag done (assignmentText pair ++ rest)
          = readAttributesAfter bareInTag (attributes.reverse ++ done) rest)
        ∧ ∀ tag, attributesText (camelCaseAll tag attributes) = assignmentText (s', pair.2) := by
  obtain ⟨s, value⟩ := pair
  dsimp only at hs hvalue ⊢
  have htext (rest : Text) : assignmentText (s, value) ++ rest
      = s ++ '=' :: '"' :: (value ++ '"' :: rest) := by
    simp [assignmentText]
  simp only [htext]
  obtain ⟨skipped, left, hskips, hleft⟩ := exists_remainder bareInTag hs
  have hread (done : List (Text × Attribute)) (rest : Text) :=
    hskips.read done _ (endsStretch_equals ('"' :: (value ++ '"' :: rest)))
  cases hleft with
  | blank hblanks =>
      refine .inl fun done rest => ?_
      rw [hread, readAttributesAfter_left hblanks (endsStretch_equals _)]
      exact readTagEnd?_eq_none hblanks (by decide)
  | stuck left hc =>
      refine .inl fun done rest => ?_
      rw [hread, List.cons_append, readAttributesAfter_stops]
      · exact readTagEnd?_name hc
      · rintro _ ⟨⟩
        exact isBlank_of_isNameChar hc
  | @word blanks word after hword hafter =>
      refine .inr ⟨skipped ++ [(blanks, ⟨word, some (after ++ ['='], '"' :: (value ++ ['"']))⟩)],
        attributesText skipped ++ blanks ++ (camelCaseWord word ++ after), ?_, ?_, ?_⟩
      · have hlast := List.dropLast_append_getLast hword.apart
        rw [hskips.text, ← List.append_assoc, ← hlast]
        simp only [List.append_assoc, List.singleton_append]
        simp only [← List.append_assoc (attributesText skipped)]
        exact .word _ (hword.blank _ (List.getLast_mem hword.apart)) hword.name hword.notEmpty
          hafter
      · intro done rest
        rw [hread, List.append_assoc, List.append_assoc, readAttributesAfter_word hword
          (stops_name_append hafter (endsStretch_equals _).stops_name),
          readAssigned?_quoted hafter hvalue]
        simp
      · intro tag
        rw [camelCaseAll_append, camelCaseAll_eq_self hskips.values, attributesText_append,
          camelCaseAll_quoted]
        simp [attributesText, Attribute.text, assignmentText]

/-- The attributes that a stretch at the end of a tag is read as, unless the tag cannot be read:
none of them has a value.
-/
theorem readAttributesAfter_last {s : Text} (hs : IsStretch s)
    : (∀ done close rest, IsClose close →
        readTagEnd? (readAttributesAfter bareInTag done (s ++ (close ++ rest))).2 = none)
      ∨ ∃ attributes blanks, (∀ c ∈ blanks, Text.isBlank c)
        ∧ (∀ a ∈ attributes, a.2.value = none) ∧ s = attributesText attributes ++ blanks
        ∧ ∀ done close rest, IsClose close →
          readAttributesAfter bareInTag done (s ++ (close ++ rest))
            = (done.reverse ++ attributes, blanks ++ (close ++ rest)) := by
  obtain ⟨skipped, left, hskips, hleft⟩ := exists_remainder bareInTag hs
  have hread {close : Text} (hclose : IsClose close) (done : List (Text × Attribute))
      (rest : Text) :=
    hskips.read done _ (hclose.endsStretch rest)
  cases hleft with
  | blank hblanks =>
      refine .inr ⟨skipped, left, hblanks, hskips.values, hskips.text, ?_⟩
      intro done close rest hclose
      rw [hread hclose, readAttributesAfter_left hblanks (hclose.endsStretch rest)]
      simp
  | stuck left hc =>
      refine .inl fun done close rest hclose => ?_
      rw [hread hclose, List.cons_append, readAttributesAfter_stops]
      · exact readTagEnd?_name hc
      · rintro _ ⟨⟩
        exact isBlank_of_isNameChar hc
  | @word blanks word after hword hafter =>
      refine .inr ⟨skipped ++ [(blanks, ⟨word, none⟩)], after, hafter, ?_, ?_, ?_⟩
      · exact List.forall_mem_append.mpr ⟨hskips.values, List.forall_mem_singleton.mpr rfl⟩
      · rw [hskips.text, attributesText_append]
        simp [attributesText, Attribute.text]
      · intro done close rest hclose
        have hends := hclose.endsStretch rest
        have hnone : readAssigned? bareInTag (after ++ (close ++ rest)) = none := by
          refine readAssigned?_eq_none ?_
          rw [dropWhile_append_stops hafter hends.stops_blank]
          rcases hclose with rfl | rfl <;> simp
        rw [hread hclose, List.append_assoc, List.append_assoc, readAttributesAfter_word hword
          (stops_name_append hafter hends.stops_name), hnone]
        dsimp only
        rw [readAttributesAfter_left hafter hends]
        simp

/-- The attributes that a tag is read as, unless it cannot be read, by induction over the
assignments in it. The attributes in the form with capitals make the same text, but for the last
words of the stretches that have values.
-/
theorem readAttributesAfter_assignments {pairs : List (Text × Text)} {last : Text}
    (hpairs : ∀ pair ∈ pairs, IsStretch pair.1 ∧ '"' ∉ pair.2) (hlast : IsStretch last)
    : (∀ done close rest, IsClose close →
        readTagEnd? (readAttributesAfter bareInTag done
          (pairs.flatMap assignmentText ++ (last ++ (close ++ rest)))).2 = none)
      ∨ ∃ attributes blanks pairs', (∀ c ∈ blanks, Text.isBlank c)
        ∧ List.Forall₂ CamelPair pairs pairs'
        ∧ (∀ done close rest, IsClose close →
          readAttributesAfter bareInTag done
              (pairs.flatMap assignmentText ++ (last ++ (close ++ rest)))
            = (done.reverse ++ attributes, blanks ++ (close ++ rest)))
        ∧ ∀ tag, attributesText (camelCaseAll tag attributes) ++ blanks
          = pairs'.flatMap assignmentText ++ last := by
  induction pairs with
  | nil =>
      rcases readAttributesAfter_last hlast with
        hnone | ⟨attributes, blanks, hblanks, hvalues, htext, hread⟩
      · exact .inl hnone
      · refine .inr ⟨attributes, blanks, [], hblanks, .nil, hread, fun tag => ?_⟩
        rw [camelCaseAll_eq_self hvalues, htext]
        rfl
  | cons pair pairs ih =>
      rw [List.forall_mem_cons] at hpairs
      simp only [List.flatMap_cons, List.append_assoc]
      rcases readAttributesAfter_assignment hpairs.1.1 hpairs.1.2 with
        hnone | ⟨first, s', hcamel, hfirst, htext⟩
      · exact .inl fun done close rest _ => hnone done _
      · rcases ih hpairs.2 with
          hnone | ⟨attributes, blanks, pairs', hblanks, hpairs', hread, htexts⟩
        · refine .inl fun done close rest hclose => ?_
          rw [hfirst]
          exact hnone _ close rest hclose
        · refine .inr ⟨first ++ attributes, blanks, (s', pair.2) :: pairs', hblanks,
            .cons ⟨hcamel, rfl⟩ hpairs', ?_, ?_⟩
          · intro done close rest hclose
            rw [hfirst, hread _ close rest hclose]
            simp
          · intro tag
            rw [camelCaseAll_append, attributesText_append, htext, List.append_assoc, htexts tag]
            simp

end SvgKit.Markup
