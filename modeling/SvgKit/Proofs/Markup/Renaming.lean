import SvgKit.Proofs.Markup.CamelCase
import SvgKit.Proofs.Markup.Stretches
import SvgKit.Proofs.Text.Ascii
import SvgKit.Proofs.Xml.RoundTrip

/-! The text of a tree in which hyphenated attribute names have their form with inner capitals is
the text of the tree with other start tags, whatever characters its names have.
-/

namespace SvgKit.Markup

open Xml (Binding Element Head Ledger Node Spelling Tag)

-----------------------------------------------------------------------------------------
-- Words of letters and digits
-----------------------------------------------------------------------------------------

/-- What camel case needs of a character: letters that may be hyphenated begin names, and they
and digits stand in names as they do when they are capitals, and are no small letters then.
-/
def keepsNames (c : Char) : Bool :=
  (!Text.isFoldedLetter c || Xml.isNameStart c)
    && (!isKebabChar c || (Xml.isNameChar c && (Text.upperChar c).all Xml.isNameChar
      && (Text.upperChar c).any (!·.isLower)))

theorem isFoldedLetter_wide {c : Char} (hc : ¬ c.val < 128) (h : Text.isFoldedLetter c)
    : c = '\u0130' ∨ c = '\u0131' ∨ c = '\u017F' ∨ c = '\u212A' := by
  by_contra hne
  simp only [not_or] at hne
  obtain ⟨h1, h2, h3, h4⟩ := hne
  have hfold : Text.foldChar c = c := by simp [Text.foldChar, hc, h1, h2, h3, h4]
  rw [Text.isFoldedLetter, hfold] at h
  have hlast : c.val ≤ 'z'.val := of_decide_eq_true (Bool.and_eq_true_iff.mp h).2
  refine hc (UInt32.lt_iff_toNat_lt.mpr ?_)
  have := UInt32.le_iff_toNat_le.mp hlast
  simp at this ⊢
  omega

/-- What holds of the ASCII letters and digits, and of the four other letters that count as Latin
ones when case is ignored, holds of all characters of hyphenated words.
-/
theorem of_isKebabChar {p : Char → Bool}
    (hascii : (List.range 128).all fun n => !isKebabChar (Char.ofNat n) || p (Char.ofNat n))
    (hwide : p '\u0130' && p '\u0131' && p '\u017F' && p '\u212A') {c : Char}
    (h : isKebabChar c)
    : p c := by
  simp only [Bool.and_eq_true, and_assoc] at hwide
  by_cases hc : c.val < 128
  · have hall : ∀ n < 128, !isKebabChar (Char.ofNat n) || p (Char.ofNat n) := fun n hn =>
      List.all_eq_true.mp hascii n (List.mem_range.mpr hn)
    have hchar := Text.forall_ascii (P := fun c => !isKebabChar c || p c) hall hc
    rwa [h, Bool.not_true, Bool.false_or] at hchar
  · have hletter : Text.isFoldedLetter c := by
      rcases Bool.or_eq_true_iff.mp h with hletter | hdigit
      · exact hletter
      · have hlast : c.val ≤ '9'.val := of_decide_eq_true (Bool.and_eq_true_iff.mp hdigit).2
        refine absurd (UInt32.lt_iff_toNat_lt.mpr ?_) hc
        have := UInt32.le_iff_toNat_le.mp hlast
        simp at this ⊢
        omega
    rcases isFoldedLetter_wide hc hletter with rfl | rfl | rfl | rfl
    · exact hwide.1
    · exact hwide.2.1
    · exact hwide.2.2.1
    · exact hwide.2.2.2

theorem keepsNames_eq_true (c : Char) : keepsNames c := by
  by_cases h : isKebabChar c
  · exact of_isKebabChar (by with_unfolding_all decide) (by with_unfolding_all decide) h
  · have hletter : Text.isFoldedLetter c = false := by
      rw [isKebabChar, Bool.or_eq_true_iff, not_or] at h
      exact Bool.eq_false_iff.mpr h.1
    simp [keepsNames, hletter, h]

theorem isNameStart_of_isFoldedLetter {c : Char} (h : Text.isFoldedLetter c)
    : Xml.isNameStart c := by
  have := keepsNames_eq_true c
  simp only [keepsNames, h, Bool.not_true, Bool.false_or, Bool.and_eq_true] at this
  exact this.1

theorem isNameChar_of_isKebabChar {c : Char} (h : isKebabChar c)
    : Xml.isNameChar c ∧ (∀ x ∈ Text.upperChar c, Xml.isNameChar x)
      ∧ ∃ x ∈ Text.upperChar c, x.isLower = false := by
  have := keepsNames_eq_true c
  simp only [keepsNames, h, Bool.not_true, Bool.false_or, Bool.and_eq_true, List.all_eq_true,
    List.any_eq_true, Bool.not_eq_true', and_assoc] at this
  exact this.2

/-- Neither the character nor its capital form ends a word: neither is a blank or a hyphen. -/
def staysInWord (c : Char) : Bool :=
  (c :: Text.upperChar c).all fun x => !Text.isBlank x && x != '-'

theorem staysInWord_of_isKebabChar {c : Char} (h : isKebabChar c)
    : ∀ x ∈ c :: Text.upperChar c, Text.isBlank x = false ∧ x ≠ '-' := by
  have hstays : staysInWord c := of_isKebabChar (by with_unfolding_all decide) (by with_unfolding_all decide) h
  intro x hx
  simpa using List.all_eq_true.mp hstays x hx

section Words

variable {word : Text} (hline : '\n' ∉ word)
include hline

theorem dropFinalLineFeed_eq_self : dropFinalLineFeed word = word := by
  unfold dropFinalLineFeed
  split
  · next h => exact absurd (List.mem_of_getLast? h) hline
  · rfl

variable (hkebab : isKebabCase word)
include hkebab

/-- The parts of a hyphenated word. -/
theorem splitOnChar_of_isKebabCase
    : ∃ c first parts, Text.splitOnChar (· == '-') word = (c :: first) :: parts
      ∧ Text.isFoldedLetter c ∧ (∀ x ∈ first, isKebabChar x)
      ∧ parts ≠ [] ∧ ∀ part ∈ parts, part ≠ [] ∧ ∀ x ∈ part, isKebabChar x := by
  unfold isKebabCase at hkebab
  rw [dropFinalLineFeed_eq_self hline] at hkebab
  split at hkebab
  · next c first part parts hsplit =>
      simp only [Bool.and_eq_true, List.all_eq_true, Bool.not_eq_true', List.isEmpty_eq_false_iff]
        at hkebab
      obtain ⟨⟨hc, hfirst⟩, hparts⟩ := hkebab
      exact ⟨c, first, part :: parts, hsplit, hc, hfirst, List.cons_ne_nil _ _, hparts⟩
  · cases hkebab

/-- A hyphenated word has a hyphen. -/
theorem mem_hyphen_of_isKebabCase : '-' ∈ word := by
  by_contra hnot
  obtain ⟨c, first, parts, hsplit, -, -, hne, -⟩ := splitOnChar_of_isKebabCase hline hkebab
  rw [Text.splitOnChar_of_forall fun x hx => by
    have hx : x ≠ '-' := fun h => hnot (h ▸ hx)
    simpa using hx] at hsplit
  obtain ⟨-, rfl⟩ := List.cons.inj hsplit
  exact hne rfl

/-- The form with capitals of a hyphenated word is a name. -/
theorem isName_camelCase : Xml.IsName (camelCase word) := by
  obtain ⟨c, first, parts, hsplit, hc, hfirst, -, hparts⟩ :=
    splitOnChar_of_isKebabCase hline hkebab
  rw [camelCase, hsplit]
  refine ⟨isNameStart_of_isFoldedLetter hc, List.forall_mem_append.mpr ⟨fun x hx =>
    (isNameChar_of_isKebabChar (hfirst x hx)).1, fun x hx => ?_⟩⟩
  obtain ⟨part, hpart, hx⟩ := List.mem_flatMap.mp hx
  cases part with
  | nil => simp [capitalize] at hx
  | cons y part =>
      have hchars := (hparts _ hpart).2
      rcases List.mem_append.mp hx with hx | hx
      · exact (isNameChar_of_isKebabChar (hchars y List.mem_cons_self)).2.1 x hx
      · exact (isNameChar_of_isKebabChar (hchars x (List.mem_cons_of_mem _ hx))).1

/-- It holds neither blanks nor hyphens. -/
theorem forall_mem_camelCase : ∀ c ∈ camelCase word, Text.isBlank c = false ∧ c ≠ '-' := by
  obtain ⟨c, first, parts, hsplit, hc, hfirst, -, hparts⟩ :=
    splitOnChar_of_isKebabCase hline hkebab
  have hletter : isKebabChar c := by simp [isKebabChar, hc]
  rw [camelCase, hsplit]
  intro x hx
  rcases List.mem_append.mp hx with hx | hx
  · rcases List.mem_cons.mp hx with rfl | hx
    · exact staysInWord_of_isKebabChar hletter x List.mem_cons_self
    · exact staysInWord_of_isKebabChar (hfirst x hx) x List.mem_cons_self
  · obtain ⟨part, hpart, hx⟩ := List.mem_flatMap.mp hx
    cases part with
    | nil => simp [capitalize] at hx
    | cons y part =>
        have hchars := (hparts _ hpart).2
        rcases List.mem_append.mp hx with hx | hx
        · exact staysInWord_of_isKebabChar (hchars y List.mem_cons_self) x
            (List.mem_cons_of_mem y hx)
        · exact staysInWord_of_isKebabChar (hchars x (List.mem_cons_of_mem _ hx)) x
            List.mem_cons_self

/-- It is no hyphenated word itself. -/
theorem isKebabCase_camelCase : isKebabCase (camelCase word) = false := by
  by_contra hagain
  rw [Bool.not_eq_false] at hagain
  have hchars := forall_mem_camelCase hline hkebab
  have hline' : '\n' ∉ camelCase word := fun hmem => absurd (hchars _ hmem).1 (by decide)
  exact (hchars _ (mem_hyphen_of_isKebabCase hline' hagain)).2 rfl

/-- It does not consist of small letters. -/
theorem exists_mem_camelCase : ∃ x ∈ camelCase word, x.isLower = false := by
  obtain ⟨c, first, parts, hsplit, -, -, hne, hparts⟩ := splitOnChar_of_isKebabCase hline hkebab
  obtain ⟨part, parts, rfl⟩ := List.exists_cons_of_ne_nil hne
  obtain ⟨hnil, hchars⟩ := hparts part List.mem_cons_self
  obtain ⟨y, part, rfl⟩ := List.exists_cons_of_ne_nil hnil
  obtain ⟨x, hx, hlower⟩ := (isNameChar_of_isKebabChar (hchars y List.mem_cons_self)).2.2
  refine ⟨x, ?_, hlower⟩
  rw [camelCase, hsplit]
  simp [capitalize, hx]

end Words

-----------------------------------------------------------------------------------------
-- Renamed names
-----------------------------------------------------------------------------------------

/-- A character that a word does not hold stands in front of the word or behind it. -/
theorem append_cons_eq_append {c : Char} {m n front word after : Text}
    (h : m ++ c :: n = front ++ (word ++ after)) (hword : c ∉ word) (hne : word ≠ [])
    : (∃ front', front = m ++ c :: front' ∧ n = front' ++ (word ++ after))
      ∨ ∃ after', after = after' ++ c :: n ∧ m = front ++ (word ++ after') := by
  rcases List.append_eq_append_iff.mp h with ⟨more, rfl, hmore⟩ | ⟨more, rfl, hmore⟩
  · cases more with
    | nil =>
        cases word with
        | nil => exact absurd rfl hne
        | cons x word =>
            rw [List.nil_append, List.cons_append, List.cons.injEq] at hmore
            exact absurd (hmore.1 ▸ List.mem_cons_self) hword
    | cons x more =>
        rw [List.cons_append, List.cons.injEq] at hmore
        obtain ⟨rfl, rfl⟩ := hmore
        exact .inl ⟨more, rfl, rfl⟩
  · rcases List.append_eq_append_iff.mp hmore with ⟨tail, rfl, rfl⟩ | ⟨tail, rfl, htail⟩
    · exact .inr ⟨tail, rfl, by simp⟩
    · cases tail with
      | nil => exact .inr ⟨[], by simpa using htail.symm, by simp⟩
      | cons x tail =>
          rw [List.cons_append, List.cons.injEq] at htail
          exact absurd (by simp [htail.1]) hword

/-- A name, and the name with other characters behind one that stands for a blank in it. -/
inductive Behind : Spelling → Spelling → Prop where
  | same (n : Spelling) : Behind n n
  | blank (space : Option Text) (front : Text) {c : Char} (hc : Text.isBlank c) (s s' : Text)
    : Behind ⟨space, front ++ c :: s⟩ ⟨space, front ++ c :: s'⟩

/-- A name, and the name with a word of it in the form with capitals: the word that it begins with,
or one behind what stands for a blank in it.
-/
inductive Renamed : Spelling → Spelling → Prop where
  | first {word after : Text} (hkebab : isKebabCase word) (hword : ∀ c ∈ word, isNameChar c)
      (hafter : Stops isNameChar after)
    : Renamed ⟨none, word ++ after⟩ ⟨none, camelCase word ++ after⟩
  | behind {n n' : Spelling} (h : Behind n n') : Renamed n n'

theorem isName_append {front word word' after : Text} (hword : Xml.IsName word')
    (h : Xml.IsName (front ++ (word ++ after)))
    : Xml.IsName (front ++ (word' ++ after)) := by
  have hafter : ∀ x ∈ after, Xml.isNameChar x := fun x hx =>
    h.isNameChar x (List.mem_append_right _ (List.mem_append_right _ hx))
  cases front with
  | nil =>
      cases word' with
      | nil => exact hword.elim
      | cons c s => exact ⟨hword.1, List.forall_mem_append.mpr ⟨hword.2, hafter⟩⟩
  | cons c front =>
      exact ⟨h.1, List.forall_mem_append.mpr ⟨fun x hx => h.2 x (List.mem_append_left _ hx),
        List.forall_mem_append.mpr ⟨hword.isNameChar, hafter⟩⟩⟩

theorem not_mem_line {word : Text} (hword : ∀ c ∈ word, isNameChar c) : '\n' ∉ word := fun hmem =>
  absurd (hword _ hmem) (by decide)

theorem not_mem_colon_of_isKebabCase {word : Text} (hkebab : isKebabCase word) : ':' ∉ word := by
  intro hcolon
  rw [isKebabCase_eq_false_of_colon hcolon] at hkebab
  cases hkebab

theorem not_mem_colon {blanks : Text} (hblanks : ∀ c ∈ blanks, Text.isBlank c) : ':' ∉ blanks :=
  fun hmem => absurd (hblanks _ hmem) (by decide)

section Names

variable {n : Spelling} (hn : n.Sound) {word after : Text} (hword : ∀ c ∈ word, isNameChar c)
  (hafter : ∀ c ∈ after, Text.isBlank c)
include hn hword hafter

/-- A name that begins with a word is a name with the word in the form with capitals. -/
theorem exists_renamed_first (h : n.text = word ++ after)
    : ∃ n' : Spelling, n'.Sound ∧ Renamed n n' ∧ n'.text = camelCaseWord word ++ after := by
  rw [camelCaseWord]
  split
  · next hkebab =>
      have hline := not_mem_line hword
      obtain ⟨space, base⟩ := n
      cases space with
      | none =>
          obtain rfl : base = word ++ after := h
          have hstops : Stops isNameChar after := by
            simpa using stops_name_append hafter (show Stops isNameChar [] by simp [Stops])
          exact ⟨⟨none, camelCase word ++ after⟩,
            ⟨@isName_append [] _ _ _ (isName_camelCase hline hkebab) hn.base,
              fun _ h => by cases h⟩, .first hkebab hword hstops, rfl⟩
      | some label =>
          have hcolon : ':' ∈ word ++ after := by
            rw [← h, Spelling.text]
            simp
          exact absurd hcolon (by simp [not_mem_colon_of_isKebabCase hkebab,
            not_mem_colon hafter])
  · exact ⟨n, hn, .behind (.same n), h⟩

/-- So is a name with a word behind a blank. -/
theorem exists_renamed_behind {front : Text} {c : Char} (hc : Text.isBlank c)
    (h : n.text = front ++ c :: (word ++ after))
    : ∃ n' : Spelling, n'.Sound ∧ Behind n n'
      ∧ n'.text = front ++ c :: (camelCaseWord word ++ after) := by
  rw [camelCaseWord]
  split
  · next hkebab =>
      have hline := not_mem_line hword
      have hcamel := isName_camelCase hline hkebab
      obtain ⟨space, base⟩ := n
      cases space with
      | none =>
          obtain rfl : base = front ++ c :: (word ++ after) := h
          have hname := @isName_append (front ++ [c]) word (camelCase word) after hcamel
            (by simpa using hn.base)
          exact ⟨⟨none, front ++ c :: (camelCase word ++ after)⟩,
            ⟨by simpa using hname, fun _ h => by cases h⟩, .blank none front hc _ _, rfl⟩
      | some label =>
          have hcolon : ':' ∉ c :: (word ++ after) := by
            have hne : ':' ≠ c := by
              rintro rfl
              exact absurd hc (by decide)
            simp [hne, not_mem_colon_of_isKebabCase hkebab, not_mem_colon hafter]
          rcases @append_cons_eq_append ':' label base front (c :: (word ++ after)) []
              (by rw [List.append_nil]; exact h) hcolon (by simp) with
            ⟨front', rfl, hbase⟩ | ⟨after', heq, -⟩
          · rw [List.append_nil] at hbase
            subst hbase
            have hname := @isName_append (front' ++ [c]) word (camelCase word) after hcamel
              (by simpa using hn.base)
            exact ⟨⟨some label, front' ++ c :: (camelCase word ++ after)⟩,
              ⟨by simpa using hname, hn.space⟩, .blank _ front' hc _ _,
              by simp [Spelling.text]⟩
          · simp at heq
  · exact ⟨n, hn, .same n, h⟩

end Names

/-- The last word of a stretch that ends with a name is in that name, unless the name is made of
blanks.
-/
theorem CamelLast.spelling {m s' : Text} {n : Spelling} (hn : n.Sound)
    (h : CamelLast (m ++ ' ' :: n.text) s')
    : (∃ n' : Spelling, n'.Sound ∧ Renamed n n' ∧ s' = m ++ ' ' :: n'.text)
      ∨ ∃ m', CamelLast m m' ∧ s' = m' ++ ' ' :: n.text := by
  generalize hs : m ++ ' ' :: n.text = s at h
  cases h with
  | @word front c word after hc hword hne hafter =>
      have hspace : ' ' ∉ word := fun hmem => absurd (hword _ hmem) (by decide)
      rcases List.append_eq_append_iff.mp hs with ⟨more, rfl, hmore⟩ | ⟨more, rfl, hmore⟩
      · cases more with
        | nil =>
            obtain ⟨rfl, htext⟩ : ' ' = c ∧ n.text = word ++ after := by simpa using hmore
            obtain ⟨n', hn', hrenamed, htext'⟩ := exists_renamed_first hn hword hafter htext
            exact .inl ⟨n', hn', hrenamed, by rw [htext']; simp⟩
        | cons x more =>
            obtain ⟨rfl, htext⟩ : ' ' = x ∧ n.text = more ++ c :: (word ++ after) := by
              simpa using hmore
            obtain ⟨n', hn', hbehind, htext'⟩ := exists_renamed_behind hn hword hafter hc htext
            exact .inl ⟨n', hn', .behind hbehind, by rw [htext']; simp⟩
      · cases more with
        | nil =>
            obtain ⟨rfl, htext⟩ : c = ' ' ∧ word ++ after = n.text := by simpa using hmore
            obtain ⟨n', hn', hrenamed, htext'⟩ := exists_renamed_first hn hword hafter htext.symm
            exact .inl ⟨n', hn', hrenamed, by rw [htext']; simp⟩
        | cons x more =>
            obtain ⟨rfl, htext⟩ : c = x ∧ word ++ after = more ++ ' ' :: n.text := by
              simpa using hmore
            rcases @append_cons_eq_append ' ' more _ [] word after htext.symm hspace hne with
              ⟨front', heq, -⟩ | ⟨after', rfl, rfl⟩
            · simp at heq
            · exact .inr ⟨_, @CamelLast.word front c word after' hc hword hne fun y hy =>
                hafter y (List.mem_append_left _ hy), by simp⟩

theorem not_camelLast_nil {s : Text} : ¬ CamelLast [] s := by
  generalize hs : ([] : Text) = s₀
  intro h
  cases h with
  | word front hc hword hne hafter => simp at hs

/-- A spelled name is a stretch. -/
theorem isStretch_text {n : Spelling} (hn : n.Sound) : IsStretch n.text := by
  intro c hc
  have hdelimiters : ∀ d ∈ ['=', '/', '>', '"', '\''], c ≠ d := by
    rintro d hd rfl
    refine hn.not_mem_text ?_ hc
    revert hd
    simp only [List.mem_cons, List.not_mem_nil, or_false]
    rintro (rfl | rfl | rfl | rfl | rfl) <;> decide
  cases hblank : Text.isBlank c with
  | true => exact .inl rfl
  | false =>
      simp only [List.forall_mem_cons] at hdelimiters
      simp [isNameChar, hblank, hdelimiters]

-----------------------------------------------------------------------------------------
-- Renamed tags
-----------------------------------------------------------------------------------------

/-- A pair of a name and a value, and the pair with its name in the form with capitals. -/
def RenamedPair (pair pair' : Spelling × Xml.Value) : Prop :=
  Renamed pair.1 pair'.1 ∧ pair'.2 = pair.2

/-- A tag, and the tag with the names of attributes in the form with capitals. -/
structure RenamedTag (t t' : Tag) : Prop where
  sound : t'.Sound
  name : Behind t.name t'.name
  given : List.Forall₂ RenamedPair t.given t'.given

/-- The stretch and the value of a pair. -/
def stretchOf (pair : Spelling × Xml.Value) : Text × Text :=
  (' ' :: pair.1.text, pair.2.flatMap Xml.Reference.spelled)

theorem text_eq_assignments (t : Tag)
    : t.text = t.name.text ++ (t.given.map stretchOf).flatMap assignmentText := by
  simp [Tag.text, List.flatMap_map, stretchOf, assignmentText, Xml.pairText, Xml.attributeText]

/-- Stretches of pairs with their last words in the form with capitals are those of renamed pairs,
by induction over the pairs.
-/
theorem exists_renamed_given {given : List (Spelling × Xml.Value)} {pairs : List (Text × Text)}
    (hgiven : ∀ a ∈ given, Xml.SoundPair a)
    (h : List.Forall₂ CamelPair (given.map stretchOf) pairs)
    : ∃ given', (∀ a ∈ given', Xml.SoundPair a) ∧ List.Forall₂ RenamedPair given given'
      ∧ pairs = given'.map stretchOf := by
  induction given generalizing pairs with
  | nil =>
      cases h
      exact ⟨[], by simp, .nil, rfl⟩
  | cons a given ih =>
      obtain ⟨⟨hname, hvalue⟩, hgiven⟩ := List.forall_mem_cons.mp hgiven
      cases h with
      | @cons _ pair _ pairs hpair hpairs =>
          obtain ⟨given', hsound, hrenamed, rfl⟩ := ih hgiven hpairs
          obtain ⟨hcamel, heq⟩ := hpair
          obtain ⟨stretch, value⟩ := pair
          obtain rfl : value = (stretchOf a).2 := heq
          rcases CamelLast.spelling (m := []) hname hcamel with
            ⟨n', hn', hrenamed', rfl⟩ | ⟨m', hnil, -⟩
          · exact ⟨(n', a.2) :: given', List.forall_mem_cons.mpr ⟨⟨hn', hvalue⟩, hsound⟩,
              .cons ⟨hrenamed', rfl⟩ hrenamed, rfl⟩
          · exact absurd hnil not_camelLast_nil

/-- A tag consists of stretches behind any part of its name, and with their last words in the form
with capitals it is a renamed tag.
-/
theorem exists_stretches {t : Tag} (ht : t.Sound) {front more : Text}
    (hname : t.name.text = front ++ more)
    : ∃ (pairs : List (Text × Text)) (last : Text),
      (∀ pair ∈ pairs, IsStretch pair.1 ∧ '"' ∉ pair.2) ∧ IsStretch last
      ∧ t.text = front ++ (pairs.flatMap assignmentText ++ last)
      ∧ ∀ pairs', List.Forall₂ CamelPair pairs pairs' →
        ∃ t', RenamedTag t t' ∧ t'.text = front ++ (pairs'.flatMap assignmentText ++ last) := by
  have hmore : IsStretch more := fun c hc =>
    isStretch_text ht.name c (by rw [hname]; exact List.mem_append_right _ hc)
  have hspelled {a : Spelling × Xml.Value} (ha : Xml.SoundPair a)
      : IsStretch (stretchOf a).1 ∧ '"' ∉ (stretchOf a).2 := by
    refine ⟨List.forall_mem_cons.mpr ⟨.inl (by decide), isStretch_text ha.1⟩, fun hmem => ?_⟩
    obtain ⟨r, hr, hc⟩ := List.mem_flatMap.mp hmem
    exact (ha.2 r hr).not_mem_spelled (.inl rfl) hc
  obtain ⟨name, given⟩ := t
  dsimp only at hname
  cases given with
  | nil =>
      refine ⟨[], more, by simp, hmore, by simp [text_eq_assignments, hname], fun pairs' h => ?_⟩
      cases h
      exact ⟨⟨name, []⟩, ⟨ht, .same _, .nil⟩, by simp [text_eq_assignments, hname]⟩
  | cons a given =>
      obtain ⟨ha, hgiven⟩ := List.forall_mem_cons.mp ht.given
      refine ⟨(more ++ ' ' :: a.1.text, (stretchOf a).2) :: given.map stretchOf, [], ?_,
        by simp [IsStretch], ?_, fun pairs' h => ?_⟩
      · rw [List.forall_mem_cons, List.forall_mem_map]
        exact ⟨⟨List.forall_mem_append.mpr ⟨hmore, (hspelled ha).1⟩, (hspelled ha).2⟩,
          fun b hb => hspelled (hgiven b hb)⟩
      · simp [text_eq_assignments, hname, assignmentText, stretchOf]
      · cases h with
        | @cons _ pair _ pairs hpair hpairs =>
            obtain ⟨given', hsound, hrenamed, rfl⟩ := exists_renamed_given hgiven hpairs
            obtain ⟨hcamel, heq⟩ := hpair
            obtain ⟨stretch, value⟩ := pair
            obtain rfl : value = (stretchOf a).2 := heq
            rcases hcamel.spelling ha.1 with ⟨n', hn', hrenamed', rfl⟩ | ⟨m', hmore', rfl⟩
            · refine ⟨⟨name, (n', a.2) :: given'⟩, ⟨⟨ht.name, ?_⟩, .same _,
                .cons ⟨hrenamed', rfl⟩ hrenamed⟩, ?_⟩
              · exact List.forall_mem_cons.mpr ⟨⟨hn', ha.2⟩, hsound⟩
              · simp [text_eq_assignments, hname, assignmentText, stretchOf]
            · cases hmore' with
              | @word inside c word after hc hword hne hafter =>
                  have hname' : name.text = (front ++ inside) ++ c :: (word ++ after) := by
                    rw [hname, List.append_assoc]
                  obtain ⟨n', hn', hbehind, htext⟩ :=
                    exists_renamed_behind ht.name hword hafter hc hname'
                  refine ⟨⟨n', a :: given'⟩, ⟨⟨hn', ?_⟩, hbehind,
                    .cons ⟨.behind (.same _), rfl⟩ hrenamed⟩, ?_⟩
                  · exact List.forall_mem_cons.mpr ⟨ha, hsound⟩
                  · simp [text_eq_assignments, htext, assignmentText, stretchOf]

-----------------------------------------------------------------------------------------
-- Texts
-----------------------------------------------------------------------------------------

theorem camelCaseAttributes_nil : camelCaseAttributes [] = [] := by
  simp [camelCaseAttributes, rewriteAttributes, Scanner.replace]

theorem camelCaseAttributes_of_read {s rest : Text} {item : Item}
    (h : readItem? s = some (item, rest))
    : camelCaseAttributes s = item.rewrite camelCaseAttribute ++ camelCaseAttributes rest := by
  simp only [camelCaseAttributes, rewriteAttributes, Scanner.replace]
  rw [scanner.pieces_of_read h, List.flatMap_cons]

theorem camelCaseAttributes_of_read_none {c : Char} {s : Text} (h : readItem? (c :: s) = none)
    : camelCaseAttributes (c :: s) = c :: camelCaseAttributes s := by
  simp only [camelCaseAttributes, rewriteAttributes, Scanner.replace]
  rw [scanner.pieces_of_read_none h, List.flatMap_cons]
  rfl

theorem camelCaseAttributes_plain {s : Text} (hs : '<' ∉ s) (rest : Text)
    : camelCaseAttributes (s ++ rest) = s ++ camelCaseAttributes rest := by
  simp only [camelCaseAttributes, rewriteAttributes, Scanner.replace]
  rw [pieces_plain hs, List.flatMap_append, List.flatMap_map]
  congr 1
  exact List.flatMap_singleton' s

/-- A text that is no start tag stays as it is up to the next markup. -/
theorem camelCaseAttributes_unread {c : Char} {s : Text} (hc : c ≠ '!') (hs : '<' ∉ c :: s)
    {rest : Text} (hread : readStartTag? (c :: s ++ rest) = none)
    : camelCaseAttributes ('<' :: (c :: s ++ rest)) = '<' :: (c :: s ++ camelCaseAttributes rest) := by
  have hitem : readItem? ('<' :: (c :: s ++ rest)) = none := by
    rw [List.cons_append] at hread ⊢
    rw [readItem?_of_ne hc, hread]
    rfl
  rw [camelCaseAttributes_of_read_none hitem, camelCaseAttributes_plain hs]

section Tags

variable {t : Tag} (ht : t.Sound)
include ht

omit ht in
/-- The name of a tag is read up to the first character that cannot stand in one. -/
theorem readTagName?_text {c : Char} {s : Text} (hname : t.name.text = c :: s)
    (hc : isTagStart c) {close : Text} (hclose : IsClose close) {behind : Text}
    (htext : t.text = t.name.text.takeWhile isTagChar ++ behind) (rest : Text)
    : readTagName? (t.text ++ (close ++ rest))
      = some (t.name.text.takeWhile isTagChar, behind ++ (close ++ rest)) := by
  have hbehind : behind = t.name.text.dropWhile isTagChar
      ++ (t.given.map stretchOf).flatMap assignmentText := by
    rw [text_eq_assignments] at htext
    conv_lhs at htext =>
      rw [← List.takeWhile_append_dropWhile (p := isTagChar) (l := t.name.text), List.append_assoc]
    exact (List.append_cancel_left htext).symm
  have hstops : Stops isTagChar (behind ++ (close ++ rest)) := by
    intro x hx
    rw [hbehind] at hx
    cases hdrop : t.name.text.dropWhile isTagChar with
    | cons y more =>
        rw [hdrop] at hx
        exact (stops_dropWhile (p := isTagChar) (s := t.name.text)) x (by rw [hdrop]; exact hx)
    | nil =>
        rw [hdrop] at hx
        cases hgiven : t.given with
        | nil =>
            rw [hgiven] at hx
            rcases hclose with rfl | rfl <;> cases hx <;> with_unfolding_all decide
        | cons a given =>
            rw [hgiven] at hx
            cases hx
            with_unfolding_all decide
  have hhead : (t.text ++ (close ++ rest)).head? = some c := by
    rw [text_eq_assignments, hname]
    rfl
  rw [readTagName?, hhead]
  dsimp only
  rw [if_pos hc, htext, List.append_assoc,
    takeWhile_append_stops (fun x hx => List.mem_takeWhile_imp hx) hstops,
    dropWhile_append_stops (fun x hx => List.mem_takeWhile_imp hx) hstops]

/-- A start tag is read up to its end, whatever ends it and stands behind it, or it is never read.
The tag that is read has the form with capitals of a renamed tag.
-/
theorem readItem?_text
    : (∀ close rest, IsClose close → readItem? ('<' :: (t.text ++ (close ++ rest))) = none)
      ∨ ∃ (read : Text → StartTag) (t' : Tag), RenamedTag t t'
        ∧ (∀ close, ((read close).rewrite camelCaseAttribute).text = '<' :: (t'.text ++ close))
        ∧ ∀ close rest, IsClose close →
          readItem? ('<' :: (t.text ++ (close ++ rest))) = some (.tag (read close), rest) := by
  obtain ⟨c, s, hname, hc⟩ := ht.name.text_eq_cons
  have hmark : c ≠ '!' := by
    rintro rfl
    exact absurd hc (by with_unfolding_all decide)
  have hitem (close rest : Text) : readItem? ('<' :: (t.text ++ (close ++ rest)))
      = (readStartTag? (t.text ++ (close ++ rest))).map fun x => (.tag x.1, x.2) := by
    obtain ⟨more, hmore⟩ : ∃ more, t.text ++ (close ++ rest) = c :: more := by
      rw [text_eq_assignments, hname]
      exact ⟨_, rfl⟩
    rw [hmore, readItem?_of_ne hmark]
  simp only [hitem]
  obtain ⟨pairs, last, hpairs, hlast, htext, hback⟩ := exists_stretches ht
    (List.takeWhile_append_dropWhile (p := isTagChar) (l := t.name.text)).symm
  by_cases hstart : isTagStart c
  · have hread {close : Text} (hclose : IsClose close) (rest : Text) :=
      readTagName?_text hname hstart hclose htext rest
    simp only [List.append_assoc] at hread
    rcases readAttributesAfter_assignments hpairs hlast with
      hnone | ⟨attributes, blanks, pairs', hblanks, hpairs', hattributes, htexts⟩
    · refine .inl fun close rest hclose => ?_
      rw [readStartTag?, hread hclose]
      simp [readAttributes, hnone [] close rest hclose]
    · obtain ⟨t', ht', htext'⟩ := hback pairs' hpairs'
      refine .inr ⟨fun close => ⟨t.name.text.takeWhile isTagChar, attributes, blanks ++ close⟩, t',
        ht', fun close => ?_, fun close rest hclose => ?_⟩
      · have hrewrite := htexts (t.name.text.takeWhile isTagChar)
        rw [htext', ← hrewrite]
        simp [StartTag.rewrite, StartTag.text, camelCaseAll]
      · have hend := readTagEnd?_close hblanks hclose rest
        rw [readStartTag?, hread hclose]
        simp [readAttributes, hattributes [] close rest hclose, hend]
  · refine .inl fun close rest hclose => ?_
    have hhead : (t.text ++ (close ++ rest)).head? = some c := by
      rw [text_eq_assignments, hname]
      rfl
    simp [readStartTag?, readTagName?, hhead, hstart]

/-- The form with capitals of a start tag is a renamed tag, whatever ends it and stands behind
it.
-/
theorem exists_renamedTag
    : ∃ t', RenamedTag t t' ∧ ∀ close rest, IsClose close →
      camelCaseAttributes ('<' :: (t.text ++ (close ++ rest)))
        = '<' :: (t'.text ++ (close ++ camelCaseAttributes rest)) := by
  rcases readItem?_text ht with hnone | ⟨read, t', ht', htext, hread⟩
  · refine ⟨t, ⟨ht, .same _, List.forall₂_same.mpr fun a _ => ⟨.behind (.same _), rfl⟩⟩,
      fun close rest hclose => ?_⟩
    have hplain : '<' ∉ t.text ++ close := by
      rcases hclose with rfl | rfl <;> simp [ht.not_mem_text (.inl rfl)]
    rw [camelCaseAttributes_of_read_none (hnone close rest hclose), ← List.append_assoc,
      camelCaseAttributes_plain hplain, List.append_assoc]
  · refine ⟨t', ht', fun close rest hclose => ?_⟩
    rw [camelCaseAttributes_of_read (hread close rest hclose), Item.rewrite, htext]
    simp

end Tags

-----------------------------------------------------------------------------------------
-- Trees
-----------------------------------------------------------------------------------------

/-- The form with capitals of the text of a forest is its text with other tags, by induction over
the forest.
-/
theorem camelCaseAttributes_writeAll {tagOf : Head → Tag} {next : Nat} {made : List Binding}
    (hledger : Ledger next made) {nodes : List Node} (hsound : Node.AllSound made nodes)
    (htags : ∀ h ∈ Node.allHeads nodes, ∀ close rest, IsClose close →
      camelCaseAttributes ('<' :: (h.text ++ (close ++ rest)))
        = '<' :: ((tagOf h).text ++ (close ++ camelCaseAttributes rest)))
    (rest : Text)
    : camelCaseAttributes (Node.writeAll nodes ++ rest)
      = Node.writeAllWith tagOf nodes ++ camelCaseAttributes rest := by
  induction nodes using Node.forest_induction generalizing rest with
  | nil => simp
  | element h content nodes inside behind =>
      obtain ⟨hhead, hcontent, hnodes⟩ := Node.AllSound.element_iff.mp hsound
      rw [Node.allHeads_element, List.forall_mem_cons, List.forall_mem_append] at htags
      obtain ⟨htag, hinside, hbehind⟩ := htags
      by_cases hempty : content = []
      · subst hempty
        have htext : Node.writeAll (.element h [] :: nodes) ++ rest
            = '<' :: (h.text ++ (['/', '>'] ++ (Node.writeAll nodes ++ rest))) := by
          simp [Node.writeAll_empty]
        rw [htext, htag _ _ (.inr rfl), behind hnodes hbehind, Node.writeAllWith_empty]
        simp
      · have htext : Node.writeAll (.element h content :: nodes) ++ rest
            = '<' :: (h.text ++ (['>'] ++ (Node.writeAll content ++ ('<' :: ('/'
              :: (h.name.text ++ ['>']) ++ (Node.writeAll nodes ++ rest)))))) := by
          simp [Node.writeAll_element h hempty]
        have hname : '<' ∉ h.name.text := by
          rw [← Xml.Name.text_spelling]
          exact (hhead.name.spelling hledger).not_mem_text (by decide)
        have hfinish : readStartTag? ('/' :: (h.name.text ++ ['>'])
            ++ (Node.writeAll nodes ++ rest)) = none := by
          simp [readStartTag?, readTagName?, isTagStart]
        rw [htext, htag _ _ (.inl rfl), inside hcontent hinside,
          camelCaseAttributes_unread (by decide) (by simp [hname]) hfinish, behind hnodes hbehind,
          Node.writeAllWith_element tagOf h hempty]
        simp
  | text s nodes ih =>
      obtain ⟨-, hnodes⟩ := Node.AllSound.text_iff.mp hsound
      have hplain : '<' ∉ s.flatMap Xml.escapeText := by
        intro hmem
        obtain ⟨c, -, hc⟩ := List.mem_flatMap.mp hmem
        exact Xml.not_mem_escapeText (.inl rfl) hc
      rw [Node.allHeads_text] at htags
      rw [Node.writeAll_text, List.append_assoc, camelCaseAttributes_plain hplain, ih hnodes htags,
        Node.writeAllWith_text, List.append_assoc]
  | entity name nodes ih =>
      obtain ⟨hname, hnodes⟩ := Node.AllSound.entity_iff.mp hsound
      have hplain : '<' ∉ '&' :: (name ++ [';']) := by
        simp [hname.not_mem_of_delimiter (show '<' ∈ Xml.delimiters by decide)]
      have htext : Node.writeAll (.entity name :: nodes) ++ rest
          = '&' :: (name ++ [';']) ++ (Node.writeAll nodes ++ rest) := by
        simp [Node.writeAll_entity]
      rw [Node.allHeads_entity] at htags
      rw [htext, camelCaseAttributes_plain hplain, ih hnodes htags, Node.writeAllWith_entity]
      simp

/-- The form with capitals of the text of a sound tree is its text with renamed tags. -/
theorem exists_renamedTags {next : Nat} {made : List Binding} (hledger : Ledger next made)
    {e : Element} (hsound : Node.AllSound made e.forest)
    : ∃ tagOf : Head → Tag, (∀ h : Head, h.tag.Sound → RenamedTag h.tag (tagOf h))
      ∧ camelCaseAttributes e.write = Node.writeAllWith tagOf e.forest := by
  have hall (h : Head) : ∃ t, h.tag.Sound → RenamedTag h.tag t ∧ ∀ close rest, IsClose close →
      camelCaseAttributes ('<' :: (h.tag.text ++ (close ++ rest)))
        = '<' :: (t.text ++ (close ++ camelCaseAttributes rest)) := by
    by_cases ht : h.tag.Sound
    · obtain ⟨t, hrenamed, htext⟩ := exists_renamedTag ht
      exact ⟨t, fun _ => ⟨hrenamed, htext⟩⟩
    · exact ⟨h.tag, fun h => absurd h ht⟩
  choose tagOf htagOf using hall
  have htags : ∀ h ∈ Node.allHeads e.forest, ∀ close rest, IsClose close →
      camelCaseAttributes ('<' :: (h.text ++ (close ++ rest)))
        = '<' :: ((tagOf h).text ++ (close ++ camelCaseAttributes rest)) := by
    intro h hh
    have hs := hsound.heads h hh
    have htag := (htagOf h (hs.tag hledger)).2
    rwa [hs.text_tag] at htag
  have hwrite := camelCaseAttributes_writeAll hledger hsound htags []
  rw [camelCaseAttributes_nil, List.append_nil, List.append_nil, ← Element.write_eq] at hwrite
  exact ⟨tagOf, fun h ht => (htagOf h ht).1, hwrite⟩

end SvgKit.Markup
